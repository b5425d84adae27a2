import AnnotationScan.Proofs.Recognition

/-!
# Answers that correspond

An entry is applied on two sources at the same token.  If the tokens look alike wherever a part of
the entry is attempted, it matches up to the same token on both or fails alike on both, unless the
first cursor allows less nesting and reaches its limit.
-/

namespace AnnotationScan

open Peg

namespace Peg

namespace Failure

theorem deeper_rel {R : Failure → Failure → Prop} (hR : ∀ f g, R f g → f.index = g.index)
    {f f' g g' : Failure} (hf : R f f') (hg : R g g') : R (f.deeper g) (f'.deeper g') := by
  unfold deeper
  rw [hR f f' hf, hR g g' hg]
  split
  · exact hg
  · exact hf

theorem better_rel {R : Failure → Failure → Prop}
    (hR : ∀ f g, R f g → f.reason = g.reason ∧ f.index = g.index) {f f' : Failure}
    {b b' : Option Failure} (hf : R f f') (hb : Option.Rel R b b') :
    R (f.better b) (f'.better b') := by
  cases hb with
  | none => exact hf
  | @some b b' hb =>
      have houtranks : f.outranks b = f'.outranks b' := by
        simp only [outranks, hR f f' hf, hR b b' hb]
      dsimp only [better]
      rw [houtranks]
      split
      · exact hf
      · exact hb

end Failure

/-- Which answers of the recognizer on two sources correspond to each other. -/
inductive Likeness.Answer {κ : Type} {source source' : Source κ} (L : Likeness source source') :
    Except Failure Recognized → Except Failure Recognized → Prop
  | ok {v w : Span} {stop : Nat} (h : L.value v w) : L.Answer (.ok ⟨v, stop⟩) (.ok ⟨w, stop⟩)
  | error {f g : Failure} (h : L.failure f g) : L.Answer (.error f) (.error g)

theorem Likeness.answer_same {κ : Type} {source : Source κ} {x y : Except Failure Recognized}
    (h : (same source).Answer x y) : x = y := by
  cases h with
  | ok h => exact h ▸ rfl
  | error h => exact h ▸ rfl

end Peg

namespace Recognizer

variable {source source' : Source TokenKind} {cursor cursor' : Cursor TokenKind}

theorem cursor_moveTo_zero (grammar : Recognizer) (tokens : TokenList) :
    (grammar.cursor tokens).moveTo 0 = grammar.cursor tokens := by
  rw [Cursor.moveTo, Nat.zero_min]
  rfl

theorem cursor_outermost (grammar : Recognizer) (tokens : TokenList) :
    (grammar.cursor tokens).Outermost tokens.toSource :=
  ⟨rfl, rfl, rfl, Nat.zero_le _⟩

theorem cursor_moveTo_outermost (grammar : Recognizer) (tokens : TokenList) (index : Nat) :
    ((grammar.cursor tokens).moveTo index).Outermost tokens.toSource :=
  ⟨rfl, rfl, rfl, Nat.min_le_right _ _⟩

/-- Answers correspond, unless the first one tells of a limit on nesting. -/
theorem recognize_agree (grammar : Recognizer) (entry : Entry) (L : Likeness source source')
    (Escape : Failure → Prop) (h : cursor.Outermost source) (h' : cursor'.Outermost source')
    (hindex : cursor.index = cursor'.index) (hdepth : cursor.maxDepth ≤ cursor'.maxDepth)
    (hescape : (∀ f : Failure, f.reason = .depthLimit cursor.maxDepth → Escape f) ∨
      cursor.maxDepth = cursor'.maxDepth)
    (halike : source.AlikeFor source' grammar.definitions (grammar.rule entry) true cursor.index) :
    let answer := (grammar.recognize entry cursor).1
    let answer' := (grammar.recognize entry cursor').1
    (∃ failure, answer = .error failure ∧ Escape failure) ∨ L.Answer answer answer' := by
  intro answer answer'
  have hparse := grammar.entryParse_agree entry L (fun cause => ∃ f, cause = .fatal f ∧ Escape f)
    h h' hindex hdepth (hescape.imp (fun hlimit f hf => ⟨f, rfl, hlimit f hf⟩) id) halike
  have hundefined : ∀ name, L.failure ⟨.notImplemented name, cursor.index, cursor.offset⟩
      ⟨.notImplemented name, cursor'.index, cursor'.offset⟩ := by
    intro name
    rw [Cursor.offset, Cursor.offset, h.source_eq, h'.source_eq, ← hindex]
    exact L.failureAt (.notImplemented name) cursor.index
  change (∃ failure, (grammar.recognize entry cursor).1 = .error failure ∧ _) ∨
    L.Answer (grammar.recognize entry cursor).1 (grammar.recognize entry cursor').1
  rw [recognize_eq, recognize_eq]
  generalize grammar.entryParse entry cursor = x at hparse ⊢
  generalize grammar.entryParse entry cursor' = y at hparse ⊢
  obtain ⟨o, after⟩ := x
  obtain ⟨o', after'⟩ := y
  obtain ⟨cause, hcause, failure, rfl, hfailure⟩ | ⟨ho, hfurthest⟩ := hparse
  · obtain rfl : o = .aborted (.fatal failure) := hcause
    exact .inl ⟨failure, rfl, hfailure⟩
  · right
    dsimp only at ho hfurthest ⊢
    cases ho with
    | matched hvalue => exact .ok hvalue
    | fatal hfatal => exact .error hfatal
    | undefinedRule => exact .error (hundefined _)
    | failed hfailed =>
        generalize after.state.furthest = best at hfurthest ⊢
        generalize after'.state.furthest = best' at hfurthest ⊢
        cases hfurthest with
        | none => exact .error hfailed
        | some hbest => exact .error hbest

theorem recognize_alike (grammar : Recognizer) (entry : Entry) (L : Likeness source source')
    (h : cursor.Outermost source) (h' : cursor'.Outermost source')
    (hindex : cursor.index = cursor'.index) (hdepth : cursor.maxDepth = cursor'.maxDepth)
    (halike : source.AlikeFor source' grammar.definitions (grammar.rule entry) true cursor.index) :
    L.Answer (grammar.recognize entry cursor).1 (grammar.recognize entry cursor').1 := by
  rcases grammar.recognize_agree entry L (fun _ => False) h h' hindex (Nat.le_of_eq hdepth)
    (.inr hdepth) halike with ⟨failure, -, hfalse⟩ | hanswer
  · exact hfalse.elim
  · exact hanswer

end Recognizer
end AnnotationScan
