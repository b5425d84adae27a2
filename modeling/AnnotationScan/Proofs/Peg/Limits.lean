import AnnotationScan.Proofs.Peg.Reachable

/-!
# Limits on nesting

A parse from a fresh cursor is compared with one that may nest references deeper.  The two take the
same steps, and store the same results in the same order, until the first one reaches its limit.
What happens there stops it, whatever surrounds the reference: no alternative, repetition or
lookahead takes it for a rule that does not match.
-/

namespace AnnotationScan.Peg

variable {κ : Type} [Describe κ] {source : Source κ} {definitions : Definitions κ}

/-- Two states with one failure that tells most and one memo, which is true. -/
structure State.Matches (source : Source κ) (definitions : Definitions κ) (s t : State) : Prop where
  truthful : s.Truthful source definitions
  furthest : s.furthest = t.furthest
  memo : s.memo = t.memo

namespace State.Matches

variable {s t : State}

theorem note (h : s.Matches source definitions t) (f : Failure) :
    (s.note f).Matches source definitions (t.note f) := by
  refine ⟨h.truthful.note f, ?_, ?_⟩
  · rw [furthest_note, furthest_note, h.furthest]
  · rw [memo_note, memo_note, h.memo]

theorem remember (h : s.Matches source definitions t) {key : Application} {o : Outcome}
    (ho : Explained source definitions (.ref key.rule) key.mode.newlines key.index o) :
    (s.remember key o).Matches source definitions (t.remember key o) := by
  refine ⟨h.truthful.remember ho, ?_, ?_⟩
  · rw [furthest_remember, furthest_remember, h.furthest]
  · cases hd : o.isDecided with
    | false =>
        rw [remember_of_not_isDecided hd, remember_of_not_isDecided hd]
        exact h.memo
    | true => rw [memo_remember hd, memo_remember hd, h.memo]

theorem remembers :
    (Likeness.same source).Remembers definitions (State.Matches source definitions) where
  keeps := by
    constructor
    · rintro s t f _ h rfl
      exact h.note f
    · exact fun e _ h => ⟨h.truthful.observe e, h.furthest, h.memo⟩
  truthful h := h.truthful
  recalled {s t} h rule mode i _ _ := by
    rw [h.memo]
    cases t.memo[(⟨definitions.scope, rule, i, mode⟩ : Application)]? with
    | none => exact .none
    | some o => exact .some (Likeness.outcome_same.2 rfl)
  remembered h he ho := by
    rw [← Likeness.outcome_same.1 ho]
    exact h.remember he

end State.Matches

variable [DecidableEq κ]

omit [DecidableEq κ] in
theorem Cursor.fresh_atRest (source : Source κ) (definitions : Definitions κ)
    (maxDepth index : Nat) : (Cursor.fresh source maxDepth index).AtRest source definitions :=
  ⟨⟨rfl, rfl, rfl, Nat.min_le_right _ _⟩, State.truthful_of_memo_empty rfl⟩

/-- With less room a parse from a fresh cursor has the same outcome as with more, ends at the same
token and leaves the same failure and the same memo, or it stops at its limit. -/
theorem Cursor.parse_fresh_limited (source : Source κ) (definitions : Definitions κ)
    (rule : Rule κ) (index : Nat) {limit limit' : Nat} (hle : limit ≤ limit') :
    let less := (Cursor.fresh source limit index).parse definitions rule
    let more := (Cursor.fresh source limit' index).parse definitions rule
    (less.1 = more.1 ∧ less.2.index = more.2.index ∧
      less.2.state.furthest = more.2.state.furthest ∧ less.2.state.memo = more.2.state.memo) ∨
    ∃ failure, less.1 = .aborted (.fatal failure) ∧ failure.reason = .depthLimit limit := by
  intro less more
  have hrest := Cursor.fresh_atRest source definitions limit index
  have hrest' := Cursor.fresh_atRest source definitions limit' index
  have hmatches : (Cursor.fresh source limit index).state.Matches source definitions
      (Cursor.fresh source limit' index).state := ⟨hrest.truthful, rfl, rfl⟩
  have hrun := State.Matches.remembers.run_inStep
    (fun cause => ∃ f, cause = .fatal f ∧ f.reason = .depthLimit limit) limit limit' hle
    (.inl fun f hf => ⟨f, rfl, hf⟩) 0 0 rule {} _ _ _ hrest.index_le hmatches
    (source.alikeFor_self definitions rule true hrest.index_le)
  dsimp only [less, more]
  rw [hrest.parse_eq, hrest'.parse_eq]
  rcases hrun with ⟨cause, hcause, f, rfl, hf⟩ | ⟨ho, hstate⟩
  · exact .inr ⟨f, hcause, hf⟩
  · have ho := Likeness.outcome_same.1 ho
    refine .inl ⟨ho, ?_, hstate.furthest, hstate.memo⟩
    exact congrArg (fun o => o.stop?.getD (min index source.last)) ho

/-- Two pairs of brackets need room for three levels: a third pair is looked for inside the inner
one. -/
theorem Cursor.parse_fresh_limited_brackets :
    let parsed (limit : Nat) :=
      (Cursor.fresh (Source.ofWords "(())") limit 0).parse Session.brackets (.ref 0)
    (parsed 3).1 = .matched ⟨0, 4⟩ 4 ∧
      ∃ failure, (parsed 2).1 = .aborted (.fatal failure) ∧ failure.reason = .depthLimit 2 := by
  intro parsed
  have hmore : (parsed 3).1 = .matched ⟨0, 4⟩ 4 := by decide +kernel
  have hless : (parsed 2).1 ≠ .matched ⟨0, 4⟩ 4 := by decide +kernel
  refine ⟨hmore, ?_⟩
  rcases Cursor.parse_fresh_limited (Source.ofWords "(())") Session.brackets (.ref 0) 0
    (show 2 ≤ 3 by decide) with ⟨hsame, -⟩ | hlimit
  · exact absurd (hsame.trans hmore) hless
  · exact hlimit

end AnnotationScan.Peg
