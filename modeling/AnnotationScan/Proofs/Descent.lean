import AnnotationScan.Proofs.Significance

/-!
# How deep an annotation nests

No recursive rule of the grammar calls itself before a token is taken.  Every recursive rule has a
height, and those that its body calls before it takes a token are lower.  A chain of calls at one
token therefore has three members at most, and with room for three times as many levels as there are
tokens no entry reaches the limit.
-/

namespace AnnotationScan

open Peg

namespace Peg

variable {κ : Type} [Describe κ] {source : Source κ} {definitions : Definitions κ}

theorem Failure.isFatal_deeper {f g : Failure} (hf : f.isFatal = false) (hg : g.isFatal = false) :
    (f.deeper g).isFatal = false := by
  unfold deeper
  split
  · exact hg
  · exact hf

theorem Derives.isFatal_eq_false {d : Nat} {rule : Rule κ} {m : Bool} {i : Nat} {o : Outcome}
    (h : Derives source definitions d rule m i o) : ∀ f, o = .failed f → f.isFatal = false := by
  induction h with
  | noToken _ | noWord _ | noKeyword _ | noLineBreak _ | notAheadSome _ _ =>
      rintro f ⟨⟩
      rfl
  | fail hreason | failNext hreason =>
      rintro f ⟨⟩
      exact hreason
  | orElseNeither _ _ ihfirst ihsecond =>
      rintro f ⟨⟩
      exact Failure.isFatal_deeper (ihfirst _ rfl) (ihsecond _ rfl)
  | andThenFirst _ ih | andThenSecond _ _ _ ih | aheadNone _ ih | newlines _ ih
  | endPointNone _ ih | traced _ ih | ref _ _ ih => exact ih
  | _ =>
      intro f hf
      cases hf

end Peg

namespace Grammar

namespace Nonterminal

/-- A bound on the number of recursive rules in a chain of calls at one token. -/
def height : Nonterminal → Nat
  | .annotationUse | .parenthesizedUserType => 1
  | .type | .primaryExpression => 2
  | .expression | .directlyAssignableExpression | .assignableExpression => 3

theorem height_pos (nonterminal : Nonterminal) : 0 < nonterminal.height := by
  cases nonterminal <;> decide

theorem height_le (nonterminal : Nonterminal) : nonterminal.height ≤ 3 := by
  cases nonterminal <;> decide

end Nonterminal

/-- How high the recursive rules are that a rule calls before it takes a token. -/
def headHeight : TokenRule → Nat
  | .andThen first second =>
    if takes first then headHeight first else max (headHeight first) (headHeight second)
  | .orElse first second => max (headHeight first) (headHeight second)
  | .optional part | .many part | .ahead part | .notAhead part | .newlines _ part
  | .endPoint part | .traced _ part => headHeight part
  | .ref rule => (Nonterminal.all[rule]?.map Nonterminal.height).getD 0
  | _ => 0

theorem headHeight_body (nonterminal : Nonterminal) (trace : Bool) :
    headHeight (nonterminal.body trace) < nonterminal.height := by
  revert trace
  cases nonterminal <;> decide

theorem isFatal_body (nonterminal : Nonterminal) (trace : Bool) :
    (nonterminal.body trace).has Rule.isFatal = false := by
  revert trace
  cases nonterminal <;> decide

theorem isFatal_entry (settings : Settings) (entry : Entry) :
    ((Recognizer.build settings).rule entry).has Rule.isFatal = false := by
  apply rule_cases (P := fun rule => rule.has Rule.isFatal = false)
  · decide
  · decide

theorem headHeight_ref (nonterminal : Nonterminal) :
    headHeight (.ref nonterminal.index) = nonterminal.height := by
  rw [headHeight, Nonterminal.all_getElem_index]
  rfl

variable {source : Source TokenKind} {trace : Bool}

theorem headHeight_of_calls (hsource : source.Marked) {r j i : Nat} {mode' mode : Mode}
    {rule : TokenRule} (h : Calls source (definitions trace) r mode' j rule mode i)
    (hi : i ≤ source.last) : i < j ∨ j = i ∧ headHeight (.ref r) ≤ headHeight rule := by
  induction h with
  | here => exact .inr ⟨rfl, Nat.le_refl _⟩
  | andThenFirst _ ih =>
      refine (ih hi).imp id fun ⟨hj, hle⟩ => ⟨hj, Nat.le_trans hle ?_⟩
      rw [headHeight]
      split
      · exact Nat.le_refl _
      · exact Nat.le_max_left _ _
  | andThenSecond hfirst hcall ih =>
      obtain ⟨hik, hk⟩ := hfirst.bounds hi _ rfl
      have hkj := (hcall.bounds hk).1
      rcases Nat.lt_or_eq_of_le hik with hlt | rfl
      · exact .inl (Nat.lt_of_lt_of_le hlt hkj)
      · -- the first part has matched nothing, so it need not take a token
        refine (ih hk).imp id fun ⟨hj, hle⟩ => ⟨hj, ?_⟩
        have htakes : ¬takes _ = true := fun htakes =>
          Nat.lt_irrefl _ (lt_of_takes hsource hfirst hi htakes _ rfl)
        rw [headHeight, if_neg htakes]
        exact Nat.le_trans hle (Nat.le_max_right _ _)
  | manyMore hpart hne hcall _ =>
      obtain ⟨hik, hk⟩ := hpart.bounds hi _ rfl
      have hlt := Nat.lt_of_le_of_ne hik hne.symm
      exact .inl (Nat.lt_of_lt_of_le hlt (hcall.bounds hk).1)
  | orElseFirst _ ih =>
      exact (ih hi).imp id fun ⟨hj, hle⟩ => ⟨hj, Nat.le_trans hle (Nat.le_max_left _ _)⟩
  | orElseSecond _ _ ih =>
      exact (ih hi).imp id fun ⟨hj, hle⟩ => ⟨hj, Nat.le_trans hle (Nat.le_max_right _ _)⟩
  | optional _ ih | many _ ih | ahead _ ih | notAhead _ ih | newlines _ ih | endPoint _ ih
  | traced _ ih => exact ih hi

/-- A recursive rule can be applied at a token with some levels left: three for each token that
follows, and one for each step of its height. -/
def Affordable (source : Source TokenKind) (levels r i : Nat) : Prop :=
  ∃ nonterminal : Nonterminal, nonterminal.index = r ∧
    3 * (source.last - i) + nonterminal.height ≤ levels

/-- From each call to the next the levels that are needed get fewer. -/
theorem keeps_affordable (hsource : source.Marked) (trace : Bool) (limit : Nat) :
    (definitions trace).Keeps source limit (fun levels r _ i => Affordable source levels r i)
      (fun _ => False) fun s => ∀ f, s.furthest = some f → f.isFatal = false where
  note s f hf hs g hg := by
    rw [State.furthest_note] at hg
    obtain rfl := Option.some.inj hg
    unfold Failure.better
    split
    · exact hf
    case h_2 best hbest =>
      split
      · exact hf
      · exact hs best hbest
  observe _ _ hs := hs
  remember _ _ _ _ s o _ hs := by rwa [State.furthest_remember]
  undefined := by
    rintro levels _ mode i ⟨nonterminal, rfl, -⟩ hnone
    cases hnone.symm.trans (definitions_body? trace nonterminal)
  limited := by
    rintro _ mode i ⟨nonterminal, rfl, hle⟩
    have hpos := nonterminal.height_pos
    omega
  fatal := by
    rintro levels r mode i body - hbody hfatal
    obtain ⟨nonterminal, -, rfl⟩ := exists_of_body? hbody
    cases (isFatal_body nonterminal trace).symm.trans hfatal
  calls := by
    rintro levels _ mode i body ⟨nonterminal, rfl, hle⟩ hbody hi r' mode' j hcall
    obtain rfl := Option.some.inj ((definitions_body? trace nonterminal).symm.trans hbody)
    obtain ⟨callee, rfl⟩ := (definitions_closed trace).closed _ _ ⟨nonterminal, rfl⟩ hbody r'
      hcall.refersTo
    refine ⟨callee, rfl, ?_⟩
    have hj := (hcall.bounds hi).2
    have hcallee := callee.height_le
    have hpos := nonterminal.height_pos
    rcases headHeight_of_calls hsource hcall hi with hlt | ⟨rfl, hhead⟩
    · omega
    · have hbody := headHeight_body nonterminal trace
      rw [headHeight_ref] at hhead
      omega

end Grammar

namespace Recognizer

/-- With room for three times as many levels as there are tokens no entry stops at its limit. -/
theorem recognize_affordable (settings : Settings) (entry : Entry) (tokens : TokenList)
    (hend : ∃ stop, tokens.tokens.back? = some stop ∧ stop.kind = .endOfInput)
    (cursor : Cursor TokenKind) (h : cursor.Outermost tokens.toSource)
    (hdepth : 3 * tokens.size ≤ cursor.maxDepth) (failure : Failure)
    (herror : ((build settings).recognize entry cursor).1 = .error failure) (limit : Nat) :
    failure.reason ≠ .depthLimit limit := by
  obtain ⟨stop, hstop, hkind⟩ := hend
  have hsource := TokenList.marked_of_back? hstop hkind
  have hsize : 3 * (tokens.toSource.last - cursor.index) + 3 ≤ cursor.maxDepth := by
    have hpos := TokenList.size_pos_of_back? hstop
    have hlast := tokens.last_toSource
    unfold TokenList.size at hdepth hpos
    omega
  have hcalls : ∀ r mode' j, Calls tokens.toSource (build settings).definitions r mode' j
      ((build settings).rule entry) {} cursor.index →
        Grammar.Affordable tokens.toSource cursor.maxDepth r j := by
    intro r mode' j hcall
    obtain ⟨callee, rfl⟩ := rule_refersTo settings entry r hcall.refersTo
    have hij := (hcall.bounds h.index_le).1
    have hheight := callee.height_le
    exact ⟨callee, rfl, by omega⟩
  have hrest := h.forget (build settings).definitions
  have hexplained := hrest.parse_explained ((build settings).rule entry)
  have hkeeps := Grammar.keeps_affordable hsource settings.traceRules cursor.maxDepth
  have hparse := hrest.parse_proceeds hkeeps ((build settings).rule entry)
    (fun hfatal => absurd hfatal (Bool.eq_false_iff.1 (Grammar.isFatal_entry settings entry)))
    hcalls (fun f hf => nomatch hf)
  rw [recognize_eq, entryParse] at herror
  dsimp only at hparse herror
  generalize cursor.forgetFailure.forgetResults.parse _ _ = x at hexplained hparse herror
  obtain ⟨o, after⟩ := x
  -- no failure on the way is fatal, and only a fatal one tells of the limit
  rcases hparse with ⟨cause, -, hfalse⟩ | ⟨hdecided, hfurthest⟩
  · exact hfalse.elim
  cases o with
  | matched span stop => cases herror
  | aborted cause => cases hdecided
  | failed own =>
      obtain rfl := Except.error.inj herror
      have hfatal : (after.state.furthest.getD own).isFatal = false := by
        cases hbest : after.state.furthest with
        | none =>
            obtain ⟨d, hd⟩ := hexplained
            exact hd.isFatal_eq_false own rfl
        | some best => exact hfurthest best hbest
      intro hreason
      rw [Failure.isFatal, hreason] at hfatal
      cases hfatal

/-- The tokens of an annotation whose argument is left open in two parentheses. -/
def openParens : TokenList :=
  ⟨"@A((", #[⟨.atSign, ⟨0, 1⟩, .empty⟩, ⟨.identifier, ⟨1, 2⟩, .empty⟩,
    ⟨.leftParen, ⟨2, 3⟩, .empty⟩, ⟨.leftParen, ⟨3, 4⟩, .empty⟩, ⟨.endOfInput, ⟨4, 4⟩, .empty⟩]⟩

/-- Five tokens never need more than fifteen levels; two levels are too few for these. -/
theorem recognize_affordable_openParens :
    let answer (limit : Nat) :=
      ((build {}).recognize .plain (Cursor.fresh openParens.toSource limit 0)).1
    let failure : Failure := ⟨.notImplemented "anonymousFunction", 4, 4⟩
    answer 2 = .error ⟨.depthLimit 2, 4, 4⟩ ∧ answer 15 = .error failure ∧
      ∀ limit, failure.reason ≠ .depthLimit limit := by
  intro answer failure
  have hfew : answer 2 = .error ⟨.depthLimit 2, 4, 4⟩ := by decide +kernel
  have hmany : answer 15 = .error failure := by decide +kernel
  have hend : ∃ stop, openParens.tokens.back? = some stop ∧ stop.kind = .endOfInput :=
    ⟨_, rfl, rfl⟩
  refine ⟨hfew, hmany, ?_⟩
  apply recognize_affordable {} .plain openParens hend (Cursor.fresh openParens.toSource 15 0)
  · exact Cursor.fresh_outermost 15 0
  · decide
  · exact hmany

end Recognizer
end AnnotationScan
