import Mathlib.Data.List.Forall2
import AnnotationScan.Proofs.Peg.Memoization

/-!
# Parses and derivations

A parse from a fresh cursor answers what is derivable, and finds every derivation that is nested no
deeper than its limit.  Rows of alternatives are reduced to their laws: the first alternative that
matches decides, and where none does the deepest failure is reported, the first one of several.
-/

namespace AnnotationScan.Peg

variable {κ : Type} [Describe κ] {source : Source κ} {definitions : Definitions κ}

namespace Derives

/-- A row of alternatives matches as the first alternative that matches. -/
theorem choice_matched {before after : List (Rule κ)} {rule : Rule κ} {m : Bool} {i d j : Nat}
    {v : Span} (hbefore : ∀ r ∈ before, ∃ e f, Derives source definitions e r m i (.failed f))
    (hrule : Derives source definitions d rule m i (.matched v j)) :
    ∃ e, Derives source definitions e (.choice (before ++ rule :: after)) m i (.matched v j) := by
  induction before with
  | nil =>
      cases after with
      | nil => exact ⟨d, hrule⟩
      | cons next after => exact ⟨d, .orElseFirst hrule⟩
  | cons first before ih =>
      obtain ⟨e, f, hfirst⟩ := hbefore first List.mem_cons_self
      obtain ⟨d', hrest⟩ := ih fun r hr => hbefore r (List.mem_cons_of_mem first hr)
      refine ⟨max e d', ?_⟩
      cases before with
      | nil => exact .orElseSecond hfirst hrest
      | cons second before => exact .orElseSecond hfirst hrest

/-- A row of alternatives none of which matches fails as the first of those that came furthest. -/
theorem choice_failed {m : Bool} {i : Nat} {rules : List (Rule κ)} {failures : List Failure}
    (h : List.Forall₂ (fun r f => ∃ e, Derives source definitions e r m i (.failed f))
      rules failures) (hne : failures ≠ []) :
    ∃ e before f after, failures = before ++ f :: after ∧
      (∀ g ∈ before, g.index < f.index) ∧ (∀ g ∈ after, g.index ≤ f.index) ∧
      Derives source definitions e (.choice rules) m i (.failed f) := by
  induction h with
  | nil => exact absurd rfl hne
  | @cons first f rules failures hfirst hrest ih =>
      obtain ⟨d, hfirst⟩ := hfirst
      cases hrest with
      | nil => exact ⟨d, [], f, [], rfl, by simp, by simp, hfirst⟩
      | @cons second f' rules failures hsecond hrest =>
          obtain ⟨e, before, g, after, hg, hbefore, hafter, hd⟩ := ih (by simp)
          have hboth := Derives.orElseNeither hfirst hd
          by_cases hfg : f.index < g.index
          · rw [Failure.deeper, if_pos hfg] at hboth
            refine ⟨max d e, f :: before, g, after, by rw [hg]; rfl, ?_, hafter, hboth⟩
            rintro k (_ | ⟨_, hk⟩)
            · exact hfg
            · exact hbefore k hk
          · rw [Failure.deeper, if_neg hfg] at hboth
            refine ⟨max d e, [], f, before ++ g :: after, by rw [hg]; rfl, by simp, ?_, hboth⟩
            intro k hk
            have hgf : g.index ≤ f.index := Nat.le_of_not_lt hfg
            rcases List.mem_append.1 hk with hk | hk
            · exact Nat.le_trans (Nat.le_of_lt (hbefore k hk)) hgf
            · rcases List.mem_cons.1 hk with rfl | hk
              · exact hgf
              · exact Nat.le_trans (hafter k hk) hgf

end Derives

omit [Describe κ] in
theorem Cursor.fresh_index_le (source : Source κ) (maxDepth index : Nat) :
    (Cursor.fresh source maxDepth index).index ≤ source.last := Nat.min_le_right _ _

variable [DecidableEq κ]

/-- With a true memo a derivable outcome is found unless it is nested too deeply. -/
theorem Derives.run_invoke {d : Nat} {rule : Rule κ} {m : Bool} {i : Nat} {o : Outcome}
    (h : Derives source definitions d rule m i o) (hi : i ≤ source.last)
    (limit levels depth : Nat) (hd : d ≤ levels) (mode : Mode) (hm : mode.newlines = m)
    {s : State} (hs : s.Truthful source definitions) :
    (rule.run source depth (definitions.invoke source limit levels) mode i s).1 = o := by
  have hplain := h.run_expand hi limit levels depth hd mode hm s
  have hdecided := h.isDecided
  rw [← hplain] at hdecided
  have hsame := (Memoizes.of_truthful (σ := State)).run_inStep limit levels depth depth rule mode
    hi hs hdecided
  exact hsame.1.symm.trans hplain

/-- What comes of a rule at a fresh cursor is derivable unless the nesting was too deep, and what is
derivable without deeper nesting is what comes of it. -/
theorem Cursor.parse_fresh_adequate (source : Source κ) (definitions : Definitions κ)
    (maxDepth index : Nat) (rule : Rule κ) :
    let cursor := Cursor.fresh source maxDepth index
    let parsed := cursor.parse definitions rule
    parsed.2.index = parsed.1.stop?.getD cursor.index ∧
    (parsed.1.isDecided = true →
      ∃ nesting, Derives source definitions nesting rule true cursor.index parsed.1) ∧
    (∀ failure, parsed.1 = .aborted (.fatal failure) →
      ∃ limit, failure.reason = .depthLimit limit) ∧
    ∀ nesting o, Derives source definitions nesting rule true cursor.index o →
      nesting ≤ maxDepth → parsed.1 = o := by
  intro cursor parsed
  have hi : cursor.index ≤ source.last := Cursor.fresh_index_le source maxDepth index
  have htrue : cursor.state.Truthful source definitions := State.truthful_of_memo_empty rfl
  obtain ⟨-, hexplained⟩ := rule.run_invoke_sound source definitions maxDepth maxDepth 0 {}
    cursor.index cursor.state hi htrue
  refine ⟨rfl, fun hd => hexplained.derives hd, fun f hf => ?_, fun nesting o ho hn => ?_⟩
  · have hf : (rule.run source 0 (definitions.invoke source maxDepth maxDepth) {} cursor.index
        cursor.state).1 = .aborted (.fatal f) := hf
    rw [hf] at hexplained
    exact Abort.Genuine.eq_depthLimit hexplained
  · exact ho.run_invoke hi maxDepth maxDepth 0 hn {} rfl htrue

end AnnotationScan.Peg
