import Mathlib.Data.List.Induction
import Mathlib.Data.Prod.Lex
import AnnotationScan.Proofs.Peg.Reachable

/-!
# The failure that tells most

A parse without a memo can keep every failure it raises, in order.  The failure that a cursor ends up
with is the first of those whose rank is greatest, although a memo skips what was done before and
does not raise its failures again: they are all on the trail by then, and a failure on the trail
never beats the best one.
-/

namespace AnnotationScan.Peg

/-- Failures in the order they were raised. -/
abbrev Trail := List Failure

instance : Ledger Trail := ⟨fun trail failure => trail ++ [failure], fun trail _ => trail⟩

/-- How much a failure tells: its depth, and whether it names a production that is left out. -/
def Failure.rank (failure : Failure) : Nat ×ₗ Bool :=
  toLex (failure.index, failure.reason.isNotImplemented)

theorem Failure.outranks_iff {f b : Failure} : f.outranks b = true ↔ b.rank < f.rank := by
  rw [rank, rank, Prod.Lex.toLex_lt_toLex, outranks]
  simp only [Bool.or_eq_true, Bool.and_eq_true, decide_eq_true_eq, beq_iff_eq, Bool.not_eq_true',
    Bool.lt_iff]
  constructor
  · rintro (h | ⟨⟨h, hf⟩, hb⟩)
    · exact .inl h
    · exact .inr ⟨h.symm, hb, hf⟩
  · rintro (h | ⟨h, hb, hf⟩)
    · exact .inl h
    · exact .inr ⟨⟨h.symm, hf⟩, hb⟩

theorem Failure.better_some {f b : Failure} (h : f.rank ≤ b.rank) : f.better (some b) = b := by
  rw [better, if_neg]
  rw [outranks_iff]
  exact not_lt.2 h

namespace Trail

def furthest (trail : Trail) : Option Failure :=
  trail.foldl (fun best failure => some (failure.better best)) none

/-- The failure is the first one of the greatest rank. -/
def FirstMaximal (failure : Failure) (trail : Trail) : Prop :=
  ∃ before after, trail = before ++ failure :: after ∧
    (∀ other ∈ before, other.rank < failure.rank) ∧ ∀ other ∈ after, other.rank ≤ failure.rank

theorem FirstMaximal.rank_le {f g : Failure} {trail : Trail} (h : FirstMaximal f trail)
    (hg : g ∈ trail) : g.rank ≤ f.rank := by
  obtain ⟨before, after, rfl, hbefore, hafter⟩ := h
  rcases List.mem_append.1 hg with hg | hg
  · exact (hbefore g hg).le
  · rcases List.mem_cons.1 hg with rfl | hg
    · exact le_refl _
    · exact hafter g hg

theorem FirstMaximal.index_le {f g : Failure} {trail : Trail} (h : FirstMaximal f trail)
    (hg : g ∈ trail) : g.index ≤ f.index := by
  have hrank := h.rank_le hg
  rw [Failure.rank, Failure.rank, Prod.Lex.toLex_le_toLex] at hrank
  rcases hrank with hlt | ⟨heq, -⟩
  · exact Nat.le_of_lt hlt
  · exact Nat.le_of_eq heq

theorem furthest_append_singleton (trail : Trail) (f : Failure) :
    furthest (trail ++ [f]) = some (f.better trail.furthest) := by
  simp [furthest]

theorem furthest_eq_none {trail : Trail} : trail.furthest = none ↔ trail = [] := by
  cases trail using List.reverseRecOn with
  | nil => simp [furthest]
  | append_singleton trail f => simp [furthest_append_singleton]

theorem firstMaximal_of_furthest {trail : Trail} {f : Failure} (h : trail.furthest = some f) :
    FirstMaximal f trail := by
  induction trail using List.reverseRecOn generalizing f with
  | nil => cases h
  | append_singleton trail g ih =>
      rw [furthest_append_singleton, Option.some.injEq] at h
      cases hbest : furthest trail with
      | none =>
          rw [hbest] at h
          obtain rfl := furthest_eq_none.1 hbest
          exact ⟨[], [], by rw [← h]; rfl, by simp, by simp⟩
      | some b =>
          obtain ⟨before, after, htrail, hbefore, hafter⟩ := ih hbest
          rw [hbest, Failure.better] at h
          split at h
          case isTrue hgb =>
            subst h
            have hlt := Failure.outranks_iff.1 hgb
            exact ⟨trail, [], rfl, fun other hother => lt_of_le_of_lt ((ih hbest).rank_le hother) hlt,
              by simp⟩
          case isFalse hgb =>
            subst h
            rw [Failure.outranks_iff, not_lt] at hgb
            refine ⟨before, after ++ [g], by simp [htrail], hbefore, ?_⟩
            intro other hother
            rcases List.mem_append.1 hother with hother | hother
            · exact hafter other hother
            · rw [List.mem_singleton.1 hother]
              exact hgb

/-- To raise failures again that were raised before makes no difference. -/
theorem furthest_append_of_subset {trail more : Trail} (h : ∀ f ∈ more, f ∈ trail) :
    furthest (trail ++ more) = trail.furthest := by
  induction more using List.reverseRecOn with
  | nil => simp
  | append_singleton more g ih =>
      have hg : g ∈ trail := h g (by simp)
      have hmore := ih fun f hf => h f (List.mem_append_left _ hf)
      obtain ⟨b, hb⟩ : ∃ b, trail.furthest = some b := by
        rw [← Option.ne_none_iff_exists', ne_eq, furthest_eq_none]
        rintro rfl
        cases hg
      rw [← List.append_assoc, furthest_append_singleton, hmore, hb,
        Failure.better_some ((firstMaximal_of_furthest hb).rank_le hg)]

end Trail

variable {κ : Type} [DecidableEq κ] [Describe κ] {source : Source κ} {definitions : Definitions κ}

/-- A rule adds the same failures to every trail, and its outcome does not depend on the trail. -/
theorem Rule.run_expand_append (source : Source κ) (definitions : Definitions κ)
    (limit levels depth : Nat) (rule : Rule κ) (mode : Mode) {i : Nat} (hi : i ≤ source.last)
    (trail : Trail) :
    let x := rule.run source depth (definitions.expand source limit levels) mode i ([] : Trail)
    rule.run source depth (definitions.expand source limit levels) mode i trail =
      (x.1, trail ++ x.2) := by
  have hkeeps : (Likeness.same source).Keeps fun t u : Trail => u = trail ++ t :=
    ⟨fun hS hf => by rw [hS, hf]; exact List.append_assoc _ _ _, fun _ _ hS => hS⟩
  have hrun := (Likeness.same source).run_inStep hkeeps depth depth
    (fun rule mode i s _ hi _ =>
      rule.run_expand_explained source definitions limit levels depth mode hi s)
    (definitions.expand_inStep (fun _ => False) hkeeps (le_refl levels) (.inr ⟨rfl, rfl⟩))
    rule mode i [] trail hi (List.append_nil _).symm
    (source.alikeFor_self definitions rule mode.newlines hi)
  obtain ⟨ho, hS⟩ := hrun.of_false
  exact Prod.ext (Likeness.outcome_same.1 ho).symm hS

theorem Rule.mem_run_expand (definitions : Definitions κ) (limit levels depth : Nat)
    (rule : Rule κ) (mode : Mode) {i : Nat}
    (hi : i ≤ source.last) {trail : Trail} {f : Failure} (hf : f ∈ trail) :
    f ∈ (rule.run source depth (definitions.expand source limit levels) mode i trail).2 := by
  rw [rule.run_expand_append source definitions limit levels depth mode hi trail]
  exact List.mem_append_left _ hf

omit [DecidableEq κ] [Describe κ] in
theorem Source.mem_fail {mode : Mode} (hmode : mode.quiet = false) {reason : Reason} {i : Nat}
    {trail : Trail} {f : Failure} (h : (source.fail reason mode i trail).1 = .failed f) :
    f ∈ (source.fail reason mode i trail).2 := by
  have hf : f = source.failureAt reason i := by
    rw [fail_fst, Outcome.ofFailure] at h
    split at h
    · cases h
    · exact (Outcome.failed.inj h).symm
  rw [hf, fail, if_neg (by simp [hmode])]
  exact List.mem_append_right _ (List.mem_singleton.2 rfl)

/-- A rule that fails outside negative lookahead has put its failure on the trail. -/
theorem Rule.run_expand_noted {limit levels : Nat}
    (hcall : ∀ r mode i trail f, i ≤ source.last → mode.quiet = false →
      (definitions.expand source limit levels r mode i trail).1 = .failed f →
      f ∈ (definitions.expand source limit levels r mode i (trail : Trail)).2)
    (depth : Nat) (rule : Rule κ) :
    ∀ (mode : Mode) (i : Nat) (trail : Trail) (f : Failure), i ≤ source.last →
      mode.quiet = false →
      (rule.run source depth (definitions.expand source limit levels) mode i trail).1 =
        .failed f →
      f ∈ (rule.run source depth (definitions.expand source limit levels) mode i trail).2 := by
  induction rule with
  | token kind | word | keyword text | lineBreak =>
      intro mode i trail f _ hmode h
      rw [Rule.run] at h ⊢
      split at h
      case isTrue => cases h
      case isFalse hne =>
        rw [if_neg hne]
        exact source.mem_fail hmode h
  | nothing | any =>
      intro mode i trail f _ _ h
      cases h
  | andThen first second ihfirst ihsecond =>
      intro mode i trail f hi hmode h
      have hfirst := ihfirst mode i trail f hi hmode
      have he := first.run_expand_explained source definitions limit levels depth mode hi trail
      rw [Rule.run] at h ⊢
      generalize first.run source depth _ mode i trail = x at h hfirst he ⊢
      obtain ⟨o, t⟩ := x
      cases o with
      | matched v j =>
          obtain ⟨d, hd⟩ := he
          have hsecond := ihsecond mode j t f (hd.bounds hi j rfl).2 hmode
          dsimp only at h ⊢
          generalize second.run source depth _ mode j t = y at h hsecond ⊢
          obtain ⟨o, u⟩ := y
          cases o with
          | matched w k => cases h
          | failed g => exact hsecond h
          | aborted cause => cases h
      | failed g => exact hfirst h
      | aborted cause => cases h
  | orElse first second ihfirst ihsecond =>
      intro mode i trail f hi hmode h
      have hfirst := ihfirst mode i trail
      rw [Rule.run] at h ⊢
      generalize first.run source depth _ mode i trail = x at h hfirst ⊢
      obtain ⟨o, t⟩ := x
      cases o with
      | matched v j => cases h
      | failed g =>
          have hsecond := ihsecond mode i t
          have hmem := second.mem_run_expand definitions limit levels depth mode hi
            (hfirst g hi hmode rfl)
          dsimp only at h ⊢
          generalize second.run source depth _ mode i t = y at h hsecond hmem ⊢
          obtain ⟨o, u⟩ := y
          cases o with
          | matched w k => cases h
          | failed g' =>
              obtain rfl := Outcome.failed.inj h
              change g.deeper g' ∈ u
              rw [Failure.deeper]
              split
              · exact hsecond g' hi hmode rfl
              · exact hmem
          | aborted cause => cases h
      | aborted cause => cases h
  | optional part | many part =>
      -- a failure would have a derivation, and these two always match
      intro mode i trail f hi _ h
      have he : Explained source definitions _ mode.newlines i (.failed f) :=
        h ▸ run_expand_explained source definitions limit levels depth _ mode hi trail
      obtain ⟨d, hd⟩ := he
      cases hd
  | ahead part ih | endPoint part ih =>
      intro mode i trail f hi hmode h
      have hpart := ih mode i trail f hi hmode
      rw [Rule.run] at h ⊢
      generalize part.run source depth _ mode i trail = x at h hpart ⊢
      obtain ⟨o, t⟩ := x
      cases o with
      | matched v j => cases h
      | failed g => exact hpart h
      | aborted cause => cases h
  | notAhead part ih =>
      intro mode i trail f hi hmode h
      rw [Rule.run] at h ⊢
      generalize part.run source depth _ _ i trail = x at h ⊢
      obtain ⟨o, t⟩ := x
      cases o with
      | matched v j => exact source.mem_fail hmode h
      | failed g => cases h
      | aborted cause => cases h
  | newlines count part ih =>
      intro mode i trail f hi hmode h
      exact ih { mode with newlines := count } i trail f hi hmode h
  | fail reason | failNext reason =>
      intro mode i trail f _ hmode h
      exact source.mem_fail hmode h
  | traced name part ih =>
      intro mode i trail f hi hmode h
      exact ih mode i trail f hi hmode h
  | ref r => exact hcall r

theorem Definitions.expand_noted (limit levels : Nat) :
    ∀ rule mode i trail f, i ≤ source.last → mode.quiet = false →
      (definitions.expand source limit levels rule mode i trail).1 = .failed f →
      f ∈ (definitions.expand source limit levels rule mode i (trail : Trail)).2 := by
  induction levels with
  | zero =>
      intro rule mode i trail f hi hmode h
      rw [expand] at h
      cases hbody : definitions.body? rule with
      | none =>
          rw [hbody] at h
          cases h
      | some body =>
          rw [hbody] at h
          cases h
  | succ levels ih =>
      intro rule mode i trail f hi hmode h
      cases hbody : definitions.body? rule with
      | none =>
          rw [expand, hbody] at h
          cases h
      | some body =>
          rw [expand_succ hbody] at h ⊢
          exact Rule.run_expand_noted ih (limit - levels) body mode i trail f hi hmode h

/-- As soon as there is room enough, a parse without a memo always puts the same on the trail. -/
theorem Definitions.expand_trail_eq {limit limit' levels levels' rule : Nat} {mode : Mode} {i : Nat}
    (hi : i ≤ source.last) {trail : Trail}
    (h : (definitions.expand source limit levels rule mode i trail).1.isDecided = true)
    (h' : (definitions.expand source limit' levels' rule mode i trail).1.isDecided = true) :
    (definitions.expand source limit levels rule mode i trail).2 =
      (definitions.expand source limit' levels' rule mode i trail).2 := by
  have hkeeps : (Likeness.same source).Keeps fun t u : Trail => t = u :=
    ⟨fun hS hf => by rw [hS, hf], fun _ _ hS => hS⟩
  have halike := source.alikeFor_self definitions (.ref rule) mode.newlines hi
  rcases le_total levels levels' with hle | hle
  · exact ((definitions.expand_inStep (fun _ => True) hkeeps hle (.inl fun _ _ => trivial) rule mode
      i trail trail hi rfl halike).of_isDecided h).2
  · exact ((definitions.expand_inStep (fun _ => True) hkeeps hle (.inl fun _ _ => trivial) rule mode
      i trail trail hi rfl halike).of_isDecided h').2.symm

/-- What a trail and a state with a memo have in common: the failure that tells most, and every
result in the memo is true and has left all its failures on the trail. -/
structure Trail.Backs (source : Source κ) (definitions : Definitions κ) (trail : Trail)
    (state : State) : Prop where
  truthful : state.Truthful source definitions
  furthest : state.furthest = trail.furthest
  raised : ∀ rule mode i o,
    state.memo[(⟨definitions.scope, rule, i, mode⟩ : Application)]? = some o → i ≤ source.last →
    ∀ limit levels, (definitions.expand source limit levels rule mode i ([] : Trail)).1.isDecided →
      ∀ f ∈ (definitions.expand source limit levels rule mode i ([] : Trail)).2, f ∈ trail

theorem Trail.backs_memoizes :
    Memoizes source definitions (Trail.Backs source definitions) where
  keeps := by
    refine ⟨fun {trail s f g} h hf => ?_, fun e _ h => ⟨h.truthful.observe e, h.furthest, h.raised⟩⟩
    obtain rfl : f = g := hf
    refine ⟨h.truthful.note f, ?_, ?_⟩
    · change (s.note f).furthest = furthest (trail ++ [f])
      rw [State.furthest_note, furthest_append_singleton, h.furthest]
    · intro rule mode i o ho hi limit levels hd g hg
      change (s.note f).memo[_]? = _ at ho
      rw [State.memo_note] at ho
      exact List.mem_append_left _ (h.raised rule mode i o ho hi limit levels hd g hg)
  truthful h := h.truthful
  lookedUp limit levels rule mode i trail s hi h ho := by
    have happend := (Rule.ref rule).run_expand_append source definitions limit levels 0 mode hi trail
    simp only [Rule.run] at happend
    rw [happend] at ho ⊢
    obtain ⟨d, hd⟩ := h.truthful _ _ ho rfl hi
    have hraised := h.raised rule mode i _ ho hi limit levels hd.isDecided
    refine ⟨h.truthful, ?_, fun rule mode i o ho hi limit levels hd f hf => ?_⟩
    · exact h.furthest.trans (furthest_append_of_subset hraised).symm
    · exact List.mem_append_left _ (h.raised rule mode i o ho hi limit levels hd f hf)
  remembered limit levels rule mode i trail s hi h := by
    have hexplained := (definitions.expand_sound source limit levels rule mode i trail hi trivial).2
    have happend := (Rule.ref rule).run_expand_append source definitions limit levels 0 mode hi trail
    simp only [Rule.run] at happend
    refine ⟨h.truthful.remember hexplained, ?_, ?_⟩
    · rw [State.furthest_remember]
      exact h.furthest
    · intro rule' mode' i' o ho hi' limit' levels' hd f hf
      cases hdecided : (definitions.expand source limit levels rule mode i trail).1.isDecided with
      | false =>
          rw [State.remember_of_not_isDecided hdecided] at ho
          exact h.raised rule' mode' i' o ho hi' limit' levels' hd f hf
      | true =>
          rw [State.memo_remember hdecided, Std.TreeMap.getElem?_insert] at ho
          split at ho
          case isTrue heq =>
            obtain ⟨-, rfl, rfl, rfl⟩ := Application.mk.inj (Std.LawfulEqCmp.eq_of_compare heq)
            rw [happend] at hdecided ⊢
            rw [Definitions.expand_trail_eq hi hd hdecided] at hf
            exact List.mem_append_right _ hf
          case isFalse => exact h.raised rule' mode' i' o ho hi' limit' levels' hd f hf

/-- The outcome of a rule at a token, and the failures that a parse without a memo raises for it. -/
def Rule.raise (rule : Rule κ) (source : Source κ) (definitions : Definitions κ)
    (limit index : Nat) : Outcome × Trail :=
  rule.run source 0 (definitions.expand source limit limit) {} index []

/-- A parse from a cursor without a memo ends up with the failure that tells most of those that are
raised when there is room enough and nothing is remembered. -/
theorem Cursor.AtRest.parse_furthest {cursor : Cursor κ} (h : cursor.AtRest source definitions)
    (hmemo : cursor.state.memo = ∅) (hfurthest : cursor.state.furthest = none) (rule : Rule κ)
    (hdecided : (cursor.parse definitions rule).1.isDecided = true) :
    ∃ enough, ∀ limit, enough ≤ limit →
      let raised := rule.raise source definitions limit cursor.index
      raised.1 = (cursor.parse definitions rule).1 ∧
        (cursor.parse definitions rule).2.state.furthest = raised.2.furthest ∧
        ∀ f, raised.1 = .failed f → f ∈ raised.2 := by
  rw [h.parse_eq] at hdecided ⊢
  dsimp only at hdecided ⊢
  have hi := h.index_le
  obtain ⟨-, hexplained⟩ := rule.run_invoke_sound source definitions cursor.maxDepth
    cursor.maxDepth 0 {} cursor.index cursor.state hi h.truthful
  obtain ⟨d, hd⟩ := hexplained.derives hdecided
  have hshared : (Likeness.same source).Shared definitions cursor.state cursor.state := by
    refine ⟨h.truthful, ?_, fun rule mode i _ _ => ?_⟩
    · rw [hfurthest]
      exact .none
    · simp [hmemo]
  have hbacks : Trail.Backs source definitions [] cursor.state := by
    refine ⟨h.truthful, hfurthest, fun rule mode i o ho => ?_⟩
    simp [hmemo] at ho
  refine ⟨max d cursor.maxDepth, fun limit hlimit => ?_⟩
  have hroom : d ≤ limit ∧ cursor.maxDepth ≤ limit := Nat.max_le.1 hlimit
  have hplain := hd.run_expand hi limit limit 0 hroom.1 {} rfl ([] : Trail)
  have hdeeper := (Likeness.same source).run_invoke_inStep (fun _ => True) cursor.maxDepth limit
    hroom.2 (.inl fun _ _ => trivial) 0 0 rule {} cursor.index cursor.state cursor.state hi hshared
    (source.alikeFor_self definitions rule true hi)
  obtain ⟨-, hshared⟩ := hdeeper.of_isDecided hdecided
  obtain ⟨-, hbacks⟩ := Trail.backs_memoizes.run_inStep limit limit 0 0 rule {} hi hbacks
    (by rw [hplain]; exact hdecided)
  refine ⟨hplain, ?_, fun f hf => ?_⟩
  · rw [Rule.raise, ← hbacks.furthest]
    exact Likeness.furthest_same hshared.furthest
  · exact Rule.run_expand_noted (Definitions.expand_noted limit limit) 0 rule {} cursor.index [] f hi
      rfl hf

end AnnotationScan.Peg
