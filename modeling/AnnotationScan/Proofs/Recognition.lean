import AnnotationScan.Proofs.Grammar.Shape
import AnnotationScan.Proofs.Peg.Diagnostics

/-!
# What is recognized, and what is reported

An entry answers as on a fresh cursor, since it forgets what earlier parses have learnt.  Where it
does not match, the failure it reports is the first of those of the greatest rank that a parse
without a memo raises outside negative lookahead.
-/

namespace AnnotationScan

open Peg

namespace Peg.Cursor

variable {κ : Type} [Describe κ] {source : Source κ} {cursor : Cursor κ}

theorem Outermost.forget (h : cursor.Outermost source) (definitions : Definitions κ) :
    cursor.forgetFailure.forgetResults.AtRest source definitions :=
  ⟨⟨h.source_eq, h.depth_eq, h.mode_eq, h.index_le⟩, State.truthful_of_memo_empty rfl⟩

omit [Describe κ] in
theorem fresh_outermost (maxDepth index : Nat) :
    (Cursor.fresh source maxDepth index).Outermost source :=
  ⟨rfl, rfl, rfl, Nat.min_le_right _ _⟩

end Peg.Cursor

namespace Recognizer

theorem rule_refersTo (settings : Settings) (entry : Entry) :
    ∀ r, ((build settings).rule entry).RefersTo r →
      ∃ nonterminal : Grammar.Nonterminal, nonterminal.index = r := by
  cases entry with
  | plain =>
      have h : Grammar.Nests false [] (Grammar.plainEntry settings.traceRules) [] := .plainEntry
      exact h.refersTo
  | file =>
      have h : Grammar.Nests false [] (Grammar.fileEntry settings.traceRules) [] := .fileEntry
      exact h.refersTo

/-- What an entry comes to: a parse from a cursor that has forgotten everything. -/
def entryParse (grammar : Recognizer) (entry : Entry) (cursor : Cursor TokenKind) :
    Outcome × Cursor TokenKind :=
  cursor.forgetFailure.forgetResults.parse grammar.definitions (grammar.rule entry)

variable {settings : Settings} {entry : Entry} {source source' : Source TokenKind}
  {cursor cursor' : Cursor TokenKind}

theorem entryParse_index (grammar : Recognizer) (entry : Entry) (cursor : Cursor TokenKind) :
    (grammar.entryParse entry cursor).2.index =
      (grammar.entryParse entry cursor).1.stop?.getD cursor.index := rfl

/-- Parses of an entry correspond, unless the first one stops at its limit on nesting. -/
theorem entryParse_agree (grammar : Recognizer) (entry : Entry) (L : Likeness source source')
    (Escape : Abort → Prop) (h : cursor.Outermost source) (h' : cursor'.Outermost source')
    (hindex : cursor.index = cursor'.index) (hdepth : cursor.maxDepth ≤ cursor'.maxDepth)
    (hescape : (∀ f : Failure, f.reason = .depthLimit cursor.maxDepth → Escape (.fatal f)) ∨
      cursor.maxDepth = cursor'.maxDepth)
    (halike : source.AlikeFor source' grammar.definitions (grammar.rule entry) true cursor.index) :
    let x := grammar.entryParse entry cursor
    let y := grammar.entryParse entry cursor'
    (∃ cause, x.1 = .aborted cause ∧ Escape cause) ∨
      L.Outcome x.1 y.1 ∧ Option.Rel L.failure x.2.state.furthest y.2.state.furthest := by
  have hrest := h.forget grammar.definitions
  have hrest' := h'.forget grammar.definitions
  have hshared : L.Shared grammar.definitions cursor.forgetFailure.forgetResults.state
      cursor'.forgetFailure.forgetResults.state :=
    ⟨hrest.truthful, .none, fun _ _ _ _ _ => by simp [Cursor.forgetResults]⟩
  have hrun := L.run_invoke_inStep Escape cursor.maxDepth cursor'.maxDepth hdepth
    (hescape.imp id fun heq => ⟨heq, heq⟩) 0 0 (grammar.rule entry) {} cursor.index _ _ h.index_le
    hshared halike
  dsimp only [entryParse]
  rw [hrest.parse_eq, hrest'.parse_eq]
  simp only [Cursor.forgetResults, Cursor.forgetFailure, ← hindex] at hrun ⊢
  exact hrun.imp id fun hboth => ⟨hboth.1, hboth.2.furthest⟩

/-- Two cursors at the same token parse alike, whatever was learnt on them. -/
theorem entryParse_congr (h : cursor.Outermost source) (h' : cursor'.Outermost source)
    (hindex : cursor.index = cursor'.index) (hdepth : cursor.maxDepth = cursor'.maxDepth)
    (grammar : Recognizer) (entry : Entry) :
    let x := grammar.entryParse entry cursor
    let y := grammar.entryParse entry cursor'
    x.1 = y.1 ∧ x.2.index = y.2.index ∧ x.2.state.furthest = y.2.state.furthest := by
  obtain ⟨cause, -, hfalse⟩ | ⟨ho, hfurthest⟩ := grammar.entryParse_agree entry
    (Likeness.same source) (fun _ => False) h h' hindex (Nat.le_of_eq hdepth) (.inr hdepth)
    (source.alikeFor_self _ _ true h.index_le)
  · exact hfalse.elim
  rw [Likeness.outcome_same] at ho
  refine ⟨ho, ?_, Likeness.furthest_same hfurthest⟩
  rw [entryParse_index, entryParse_index, ho, hindex]

theorem recognize_eq (grammar : Recognizer) (entry : Entry) (cursor : Cursor TokenKind) :
    grammar.recognize entry cursor =
      let parsed := grammar.entryParse entry cursor
      (match parsed.1 with
        | .matched span stop => .ok ⟨span, stop⟩
        | .failed failure => .error (parsed.2.state.furthest.getD failure)
        | .aborted (.fatal failure) => .error failure
        | .aborted (.undefinedRule name) =>
          .error ⟨.notImplemented name, cursor.index, cursor.offset⟩, parsed.2) := rfl

theorem entryParse_not_isUndefined (settings : Settings) (entry : Entry)
    (h : cursor.Outermost source) :
    ¬((build settings).entryParse entry cursor).1.IsUndefined :=
  (Grammar.definitions_closed settings.traceRules).parse_not_isUndefined (h.forget _)
    (rule_refersTo settings entry)

theorem entryParse_explained (grammar : Recognizer) (entry : Entry) (h : cursor.Outermost source) :
    Explained source grammar.definitions (grammar.rule entry) true cursor.index
      (grammar.entryParse entry cursor).1 :=
  (h.forget grammar.definitions).parse_explained (grammar.rule entry)

theorem derives_of_recognize {grammar : Recognizer} {recognized : Recognized}
    (h : cursor.Outermost source) (hok : (grammar.recognize entry cursor).1 = .ok recognized) :
    ∃ d, Derives source grammar.definitions d (grammar.rule entry) true cursor.index
      (.matched recognized.span recognized.stop) := by
  have hexplained := grammar.entryParse_explained entry h
  rw [recognize_eq] at hok
  dsimp only at hok
  generalize (grammar.entryParse entry cursor).1 = o at hexplained hok
  cases o with
  | matched span stop =>
      obtain rfl := Except.ok.inj hok
      exact hexplained
  | failed failure => cases hok
  | aborted cause => cases cause <;> cases hok

theorem isDecided_entryParse (h : cursor.Outermost source)
    (hlimit : ∀ failure, ((build settings).recognize entry cursor).1 = .error failure →
      ∀ limit, failure.reason ≠ .depthLimit limit) :
    ((build settings).entryParse entry cursor).1.isDecided = true := by
  have hexplained := (build settings).entryParse_explained entry h
  have hundefined := entryParse_not_isUndefined settings entry h
  rw [recognize_eq] at hlimit
  dsimp only at hlimit
  generalize (build settings).entryParse entry cursor = x at hexplained hundefined hlimit ⊢
  obtain ⟨o, after⟩ := x
  cases o with
  | matched span stop => rfl
  | failed failure => rfl
  | aborted cause =>
      cases cause with
      | undefinedRule name => exact absurd ⟨name, rfl⟩ hundefined
      | fatal failure =>
          obtain ⟨limit, hreason⟩ := Abort.Genuine.eq_depthLimit hexplained
          exact absurd hreason (hlimit failure rfl limit)

/-- An outcome of a rule fits the answer of an entry, which may report another failure. -/
def Answers : Outcome → Except Failure Recognized → Prop
  | .matched span stop, answer => answer = .ok ⟨span, stop⟩
  | .failed _, answer | .aborted _, answer => ∃ failure, answer = .error failure

theorem exists_derives_of_recognize (h : cursor.Outermost source)
    (hlimit : ∀ failure, ((build settings).recognize entry cursor).1 = .error failure →
      ∀ limit, failure.reason ≠ .depthLimit limit) :
    ∃ d o, Derives source (Grammar.definitions settings.traceRules) d ((build settings).rule entry)
        true cursor.index o ∧
      Answers o ((build settings).recognize entry cursor).1 := by
  obtain ⟨d, hd⟩ := ((build settings).entryParse_explained entry h).derives
    (isDecided_entryParse h hlimit)
  refine ⟨d, _, hd, ?_⟩
  rw [recognize_eq]
  dsimp only
  have hdecided := hd.isDecided
  revert hdecided
  cases ((build settings).entryParse entry cursor).1 with
  | matched span stop => exact fun _ => rfl
  | failed failure => exact fun _ => ⟨_, rfl⟩
  | aborted cause =>
      intro hdecided
      cases hdecided

theorem recognize_outermost (grammar : Recognizer) (entry : Entry) (h : cursor.Outermost source) :
    (grammar.recognize entry cursor).2.Outermost source :=
  ((h.forget grammar.definitions).parse (grammar.rule entry)).toOutermost

/-- Whatever was parsed before, an entry answers as on a fresh cursor, and a failure it reports is
the one that tells most of those that a parse without a memo raises. -/
theorem recognize_reports_firstMaximal (settings : Settings) (entry : Entry) (tokens : TokenList)
    (cursor : Cursor TokenKind) (h : cursor.Outermost tokens.toSource) :
    let grammar := build settings
    let answer := grammar.recognize entry cursor
    let afresh := grammar.recognize entry
      (Cursor.fresh tokens.toSource cursor.maxDepth cursor.index)
    answer.1 = afresh.1 ∧ answer.2.index = afresh.2.index ∧
      ∀ failure, answer.1 = .error failure → (∀ limit, failure.reason ≠ .depthLimit limit) →
        ∃ enough, ∀ limit, enough ≤ limit →
          let raised := (grammar.rule entry).raise tokens.toSource grammar.definitions limit
            cursor.index
          ∃ own, raised.1 = .failed own ∧ Trail.FirstMaximal failure raised.2 ∧
            own.index ≤ failure.index := by
  intro grammar answer afresh
  have hfresh : (Cursor.fresh tokens.toSource cursor.maxDepth cursor.index).index = cursor.index :=
    Nat.min_eq_left h.index_le
  obtain ⟨ho, hindex, hfurthest⟩ := entryParse_congr h
    (Cursor.fresh_outermost cursor.maxDepth cursor.index) hfresh.symm rfl grammar entry
  have hoffset : cursor.offset =
      (Cursor.fresh tokens.toSource cursor.maxDepth cursor.index).offset := by
    rw [Cursor.offset, Cursor.offset, hfresh, h.source_eq]
    rfl
  refine ⟨?_, hindex, fun failure hfailure hreason => ?_⟩
  · change (grammar.recognize entry cursor).1 = (grammar.recognize entry _).1
    rw [recognize_eq, recognize_eq]
    dsimp only
    rw [ho, hfurthest, hfresh, hoffset]
  · change (grammar.recognize entry cursor).1 = .error failure at hfailure
    rw [recognize_eq] at hfailure
    have hrest := h.forget grammar.definitions
    have hundefined := entryParse_not_isUndefined settings entry h
    have hfatal := (hrest.parse_eq_plain (grammar.rule entry)).2.2
    have hreport := hrest.parse_furthest rfl rfl (grammar.rule entry)
    change ¬(grammar.entryParse entry cursor).1.IsUndefined at hundefined
    change ∀ f, (grammar.entryParse entry cursor).1 = _ ∨ _ → _ at hfatal
    change (grammar.entryParse entry cursor).1.isDecided = true → ∃ enough, ∀ limit, _ →
      _ = (grammar.entryParse entry cursor).1 ∧
        (grammar.entryParse entry cursor).2.state.furthest = _ ∧ _ at hreport
    -- a decided parse reports the best of its failures, and the one it failed with is among them
    generalize grammar.entryParse entry cursor = x at hfailure hundefined hfatal hreport
    obtain ⟨o, after⟩ := x
    cases o with
    | matched span stop => cases hfailure
    | failed own =>
        obtain ⟨enough, henough⟩ := hreport rfl
        refine ⟨enough, fun limit hlimit => ?_⟩
        obtain ⟨hown, hbest, hmem⟩ := henough limit hlimit
        have hmem := hmem own hown
        obtain ⟨best, hsome⟩ := Option.ne_none_iff_exists'.1
          (mt Trail.furthest_eq_none.1 (List.ne_nil_of_mem hmem))
        have hfirst := Trail.firstMaximal_of_furthest hsome
        dsimp only at hfailure hbest
        rw [hbest, hsome] at hfailure
        obtain rfl : best = failure := Except.error.inj hfailure
        exact ⟨own, hown, hfirst, hfirst.index_le hmem⟩
    | aborted cause =>
        cases cause with
        | fatal f =>
            obtain rfl : f = failure := Except.error.inj hfailure
            obtain ⟨limit, hlimit⟩ := hfatal f (.inl rfl)
            exact absurd hlimit (hreason limit)
        | undefinedRule name => exact absurd ⟨name, rfl⟩ hundefined

def lonelyAtSign : TokenList :=
  ⟨"@", #[⟨.atSign, ⟨0, 1⟩, .empty⟩, ⟨.endOfInput, ⟨1, 1⟩, .empty⟩]⟩

/-- Of all the failures behind a lonely at sign the first one is reported. -/
theorem recognize_reports_firstMaximal_lonelyAtSign :
    let grammar := build {}
    let failure : Failure := ⟨.expected "`field`", 1, 1⟩
    (grammar.recognize .plain (grammar.cursor lonelyAtSign)).1 = .error failure ∧
      ∃ enough, ∀ limit, enough ≤ limit →
        Trail.FirstMaximal failure
          ((grammar.rule .plain).raise lonelyAtSign.toSource grammar.definitions limit 0).2 := by
  intro grammar failure
  have hanswer : (grammar.recognize .plain (grammar.cursor lonelyAtSign)).1 = .error failure := by
    decide +kernel
  have h : (grammar.cursor lonelyAtSign).Outermost lonelyAtSign.toSource :=
    ⟨rfl, rfl, rfl, Nat.zero_le _⟩
  obtain ⟨enough, henough⟩ := (recognize_reports_firstMaximal {} .plain lonelyAtSign _ h).2.2 failure
    hanswer (by simp [failure])
  refine ⟨hanswer, enough, fun limit hlimit => ?_⟩
  obtain ⟨own, -, hfirst, -⟩ := henough limit hlimit
  exact hfirst

end Recognizer
end AnnotationScan
