import AnnotationScan.Proofs.Consumption
import AnnotationScan.Proofs.Grammar.Decisions

/-!
# What is derivable is recognized

An entry recognizes whatever its rule matches unless it reports a limit on nesting, and with three
levels for each token in front of the end it reports none.
-/

namespace AnnotationScan.Recognizer

open Peg

variable {settings : Settings} {source : Source TokenKind} {j : Nat}

/-- Nothing is called at the token where an entry starts, so that one token pays for the end. -/
theorem matchAt_of_matches (hsource : source.Marked) (hdepth : 3 * source.last ≤ settings.maxDepth)
    (h : Matches source (Grammar.definitions settings.traceRules)
      (Grammar.plainEntry settings.traceRules) true 0 j) :
    matchAt settings source = .matched (source.spanFrom 0 j) j := by
  have hzero := Nat.zero_le source.last
  have hentry : Grammar.headHeight (Grammar.plainEntry settings.traceRules) = 0 := by
    cases settings.traceRules <;> decide
  have hrefers : ∀ r, (Grammar.plainEntry settings.traceRules).RefersTo r →
      ∃ nonterminal : Grammar.Nonterminal, nonterminal.index = r := by
    have hnests : Grammar.Nests true [] (Grammar.plainEntry settings.traceRules) [] := .plainEntry
    exact hnests.refersTo
  have hcalls : ∀ r mode' k, Calls source (Grammar.definitions settings.traceRules) r mode' k
      (Grammar.plainEntry settings.traceRules) {} 0 →
        Grammar.Affordable source settings.maxDepth r k := by
    intro r mode' k hcall
    obtain ⟨callee, rfl⟩ := hrefers r hcall.refersTo
    have hheight := callee.height_le
    have hpos := callee.height_pos
    have hbounds := hcall.bounds hzero
    refine ⟨callee, rfl, ?_⟩
    rcases Grammar.headHeight_of_calls hsource hcall hzero with hlt | ⟨-, hle⟩
    · omega
    · rw [Grammar.headHeight_ref, hentry] at hle
      omega
  have hempty : ({} : State).Truthful source (Grammar.definitions settings.traceRules) :=
    State.truthful_of_memo_empty rfl
  have hkeeps := Grammar.keeps_affordable hsource settings.traceRules settings.maxDepth
  have hrun := hkeeps.run_proceeds (hkeeps.invoke_proceeds _) 0 (Grammar.plainEntry _)
    (fun htrue => absurd htrue (Bool.eq_false_iff.1 (Grammar.isFatal_entry settings .plain))) {}
    hzero hcalls ⟨hempty, fun f hf => nomatch hf⟩
  obtain ⟨-, hexplained⟩ := (Grammar.plainEntry settings.traceRules).run_invoke_sound source
    (Grammar.definitions settings.traceRules) settings.maxDepth settings.maxDepth 0 {} 0 {} hzero
    hempty
  rcases hrun with ⟨cause, -, hfalse⟩ | ⟨hdecided, -⟩
  · exact hfalse.elim
  · obtain ⟨d, hd⟩ := hexplained.derives hdecided
    obtain ⟨e, v, he⟩ := h
    obtain rfl := Grammar.plainEntry_value he
    exact hd.unique he hzero

theorem recognizeAt_eq_ok_iff {tokens : TokenList} {span : Span} :
    (build settings).recognizeAt tokens 0 = .ok ⟨span, j⟩ ↔
      matchAt settings tokens.toSource = .matched span j := by
  rw [recognizeAt, recognize_eq, ← entryParse_eq_matchAt]
  generalize (build settings).entryParse _ _ = parsed
  obtain ⟨outcome, after⟩ := parsed
  cases outcome with
  | matched span' k => simp
  | failed failure => simp
  | aborted cause => cases cause <;> simp

/-- What is derivable is recognized unless a limit on nesting is reported. -/
theorem recognizeAt_of_matches {tokens : TokenList}
    (hlimit : ∀ failure, (build settings).recognizeAt tokens 0 = .error failure →
      ∀ limit, failure.reason ≠ .depthLimit limit)
    (h : Matches tokens.toSource (Grammar.definitions settings.traceRules)
      (Grammar.plainEntry settings.traceRules) true 0 j) :
    (build settings).recognizeAt tokens 0 = .ok ⟨tokens.toSource.spanFrom 0 j, j⟩ := by
  have houtermost := cursor_moveTo_outermost (build settings) tokens 0
  have hindex : (((build settings).cursor tokens).moveTo 0).index = 0 := Nat.zero_min _
  have hdecided := isDecided_entryParse houtermost hlimit
  have hexplained := (build settings).entryParse_explained .plain houtermost
  rw [entryParse_eq_matchAt] at hdecided hexplained
  rw [hindex] at hexplained
  obtain ⟨d, hd⟩ := hexplained.derives hdecided
  obtain ⟨e, v, he⟩ := h
  obtain rfl := Grammar.plainEntry_value he
  exact recognizeAt_eq_ok_iff.2 (hd.unique he (Nat.zero_le _))

end AnnotationScan.Recognizer
