import AnnotationScan.Peg.Cursor
import AnnotationScan.Proofs.Peg.Soundness

/-!
# Parses without a memo

`Definitions.expand` closes the circle of references by applying the body every time, where
`Definitions.invoke` would look into the memo first.  Such a parse finds every derivation that is
not nested deeper than its limit, so a rule has one outcome only.
-/

namespace AnnotationScan.Peg

variable {κ σ : Type} [DecidableEq κ] [Describe κ] [Ledger σ]

/-- Applies a recursive rule at a token, whether or not that was done before. -/
def Definitions.expand (definitions : Definitions κ) (source : Source κ) (limit : Nat) :
    (levels rule : Nat) → Matcher σ
  | levels, rule, mode, index, state =>
    match definitions.body? rule with
    | none => (.aborted (.undefinedRule (definitions.name rule)), state)
    | some body =>
      match levels with
      | 0 => source.fail (.depthLimit limit) mode index state
      | levels + 1 =>
        body.run source (limit - levels) (definitions.expand source limit levels) mode index state

def Cursor.parsePlainly (cursor : Cursor κ) (definitions : Definitions κ) (rule : Rule κ) :
    Outcome × Cursor κ :=
  let levels := cursor.maxDepth - cursor.depth
  let (outcome, state) :=
    rule.run cursor.source cursor.depth
      (definitions.expand cursor.source cursor.maxDepth levels)
      cursor.mode cursor.index cursor.state
  (outcome, { cursor with index := outcome.stop?.getD cursor.index, state })

/-- A cursor at a token, from which nothing has been parsed yet. -/
def Cursor.fresh (source : Source κ) (maxDepth index : Nat) : Cursor κ :=
  Cursor.moveTo { source, maxDepth } index

variable {source : Source κ} {definitions : Definitions κ}

theorem Cursor.parsePlainly_fresh (definitions : Definitions κ) (rule : Rule κ) (maxDepth : Nat)
    {index : Nat} (hindex : index ≤ source.last) :
    (Cursor.fresh source maxDepth index).parsePlainly definitions rule =
      let x := rule.run source 0 (definitions.expand source maxDepth maxDepth) {} index {}
      (x.1, { Cursor.fresh source maxDepth index with
        index := x.1.stop?.getD index, state := x.2 }) := by
  simp [parsePlainly, fresh, moveTo, Nat.min_eq_left hindex]

theorem Definitions.expand_succ {rule : Nat} {body : Rule κ}
    (hbody : definitions.body? rule = some body) (limit levels : Nat) (mode : Mode) (i : Nat)
    (s : σ) : definitions.expand source limit (levels + 1) rule mode i s =
      body.run source (limit - levels) (definitions.expand source limit levels) mode i s := by
  rw [expand, hbody]

omit [DecidableEq κ] in
theorem Explained.ref {rule : Nat} {body : Rule κ} {m : Bool} {i : Nat} {o : Outcome}
    (hbody : definitions.body? rule = some body) (h : Explained source definitions body m i o) :
    Explained source definitions (.ref rule) m i o :=
  h.imp fun d hd => ⟨d + 1, .ref hbody hd⟩

omit [DecidableEq κ] in
theorem Explained.derives {rule : Rule κ} {m : Bool} {i : Nat} {o : Outcome}
    (h : Explained source definitions rule m i o) (ho : o.isDecided = true) :
    ∃ d, Derives source definitions d rule m i o := by
  cases o with
  | matched v j => exact h
  | failed f => exact h
  | aborted cause => simp [Outcome.isDecided] at ho

theorem Definitions.expand_sound (source : Source κ) (definitions : Definitions κ)
    (limit levels rule : Nat) :
    Sound source definitions (fun _ : σ => True) (.ref rule)
      (definitions.expand source limit levels rule) := by
  induction levels generalizing rule with
  | zero =>
      intro mode i s _ _
      rw [expand]
      cases definitions.body? rule with
      | none => exact ⟨trivial, trivial⟩
      | some body => exact ⟨trivial, rfl⟩
  | succ levels ih =>
      intro mode i s hi _
      cases hbody : definitions.body? rule with
      | none =>
          rw [expand, hbody]
          exact ⟨trivial, trivial⟩
      | some body =>
          rw [expand_succ hbody]
          have h := Rule.run_sound (fun _ _ _ => trivial) (fun _ _ _ => trivial) ih (limit - levels)
            body mode i s hi trivial
          exact ⟨trivial, .ref hbody h.2⟩

/-- A plain parse of any rule is explained by a derivation. -/
theorem Rule.run_expand_explained (source : Source κ) (definitions : Definitions κ)
    (limit levels depth : Nat) (rule : Rule κ) (mode : Mode) {i : Nat} (hi : i ≤ source.last)
    (s : σ) : Explained source definitions rule mode.newlines i
      (rule.run source depth (definitions.expand source limit levels) mode i s).1 :=
  (Rule.run_sound (fun _ _ _ => trivial) (fun _ _ _ => trivial)
    (definitions.expand_sound source limit levels) depth rule mode i s hi trivial).2

omit [DecidableEq κ] in
theorem Explained.bounds {rule : Rule κ} {m : Bool} {i : Nat} {o : Outcome}
    (h : Explained source definitions rule m i o) (hi : i ≤ source.last) :
    ∀ j, o.stop? = some j → i ≤ j ∧ j ≤ source.last := by
  cases o with
  | matched v j => exact h.choose_spec.bounds hi
  | failed f => simp [Outcome.stop?]
  | aborted cause => simp [Outcome.stop?]

omit [DecidableEq κ] [Describe κ] [Ledger σ] in
/-- Where a repetition ends does not depend on where it was begun, nor on the number of rounds once
there are more of them than tokens left. -/
theorem Source.repeated_restart {matcher : Matcher σ} {mode : Mode}
    (hbounds : ∀ i s j, i ≤ source.last → (matcher mode i s).1.stop? = some j →
      i ≤ j ∧ j ≤ source.last) (start start' : Nat) :
    ∀ (rounds rounds' i : Nat) (s : σ), source.last - i < rounds → source.last - i < rounds' →
      i ≤ source.last → ∀ k, (source.repeated matcher mode start rounds i s).1.stop? = some k →
        (source.repeated matcher mode start' rounds' i s).1 = source.reach start' k := by
  intro rounds
  induction rounds with
  | zero =>
      intro rounds' i s hr
      omega
  | succ rounds ih =>
      intro rounds' i s hr hr' hi k hk
      obtain ⟨rounds', rfl⟩ : ∃ n, rounds' = n + 1 := ⟨rounds' - 1, by omega⟩
      have hb := hbounds i s
      rw [Source.repeated] at hk ⊢
      generalize matcher mode i s = x at hk hb ⊢
      obtain ⟨o, t⟩ := x
      cases o with
      | matched v j =>
          obtain ⟨hij, hj⟩ := hb j hi rfl
          by_cases hji : j = i
          · simp only [hji, if_true] at hk ⊢
            cases hk
            rfl
          · simp only [hji, if_false] at hk ⊢
            exact ih rounds' j t (by omega) (by omega) hj k hk
      | failed f =>
          cases hk
          rfl
      | aborted cause => cases hk

namespace Derives

theorem exists_run_expand {d : Nat} {rule : Rule κ} {m : Bool} {i : Nat} {o : Outcome}
    (h : Derives source definitions d rule m i o) (hi : i ≤ source.last)
    (limit levels depth : Nat) (hd : d ≤ levels) (mode : Mode) (hm : mode.newlines = m) (s : σ) :
    ∃ t, rule.run source depth (definitions.expand source limit levels) mode i s = (o, t) := by
  -- the ledger is left open: whatever the first of two parts has put there, the second one goes on
  induction h generalizing levels depth mode s with
  | token h | word h | keyword h => exact ⟨s, by simp [Rule.run, h]⟩
  | noToken h | noWord h | noKeyword h =>
      rw [Rule.run, if_neg (by simpa using h)]
      exact ⟨_, rfl⟩
  | nothing | any => exact ⟨s, rfl⟩
  | lineBreak h => exact ⟨s, by simp [Rule.run, Source.stay, h, hm]⟩
  | noLineBreak h =>
      subst hm
      rw [Rule.run, if_neg (by simp [h])]
      exact ⟨_, rfl⟩
  | fail h | failNext h => exact ⟨_, Prod.ext (Outcome.ofFailure_eq_failed h) rfl⟩
  | @andThen first second m i j k d e v w hfirst hsecond ihfirst ihsecond
  | @andThenSecond first second m i j d e v f hfirst hsecond ihfirst ihsecond =>
      obtain ⟨t, hx⟩ := ihfirst hi levels depth (by omega) mode hm s
      obtain ⟨u, hy⟩ :=
        ihsecond (hfirst.bounds hi j rfl).2 levels depth (by omega) mode hm t
      rw [Rule.run, hx]
      dsimp only
      rw [hy]
      exact ⟨_, rfl⟩
  | @orElseSecond first second m i j d e v f hfirst hsecond ihfirst ihsecond
  | @orElseNeither first second m i d e f g hfirst hsecond ihfirst ihsecond =>
      obtain ⟨t, hx⟩ := ihfirst hi levels depth (by omega) mode hm s
      obtain ⟨u, hy⟩ := ihsecond hi levels depth (by omega) mode hm t
      rw [Rule.run, hx]
      dsimp only
      rw [hy]
      exact ⟨_, rfl⟩
  | andThenFirst _ ih | orElseFirst _ ih | optional _ ih | optionalNone _ ih | ahead _ ih
  | aheadNone _ ih | endPoint _ ih | endPointNone _ ih | traced _ ih =>
      obtain ⟨t, hx⟩ := ih hi levels depth hd mode hm s
      rw [Rule.run, hx]
      exact ⟨_, rfl⟩
  | notAhead _ ih | notAheadSome _ ih =>
      obtain ⟨t, hx⟩ := ih hi levels depth hd { mode with quiet := true } hm s
      rw [Rule.run, hx]
      exact ⟨_, rfl⟩
  | manyNone _ ih | manyIdle _ ih =>
      obtain ⟨t, hx⟩ := ih hi levels depth hd mode hm s
      exact ⟨t, by simp [Rule.run, Source.repeated, Source.reach, hx]⟩
  | @manyMore part m i j k d e v w hpart hne hrest ihpart ihrest =>
      obtain ⟨hij, hj⟩ := hpart.bounds hi j rfl
      obtain ⟨t, hx⟩ := ihpart hi levels depth (by omega) mode hm s
      obtain ⟨u, hy⟩ := ihrest hj levels depth (by omega) mode hm t
      rw [Rule.run] at hy
      refine ⟨_, Prod.ext ?_ rfl⟩
      rw [Rule.run, Source.repeated, hx]
      simp only [hne, if_false]
      -- the derivation starts a repetition at `j`, the run goes on with the one started at `i`
      refine Source.repeated_restart ?_ j i _ _ j t (Nat.lt_succ_self _) (by omega) hj k ?_
      · intro i s k hi
        exact (part.run_expand_explained source definitions limit levels depth mode hi s).bounds hi k
      · rw [hy]
        rfl
  | newlines hpart ih =>
      rw [Rule.run]
      exact ih hi levels depth hd _ rfl s
  | ref hbody _ ih =>
      obtain ⟨levels, rfl⟩ : ∃ n, levels = n + 1 := ⟨levels - 1, by omega⟩
      rw [Rule.run, Definitions.expand_succ hbody]
      exact ih hi levels (limit - levels) (by omega) mode hm s

/-- A plain parse that is allowed to nest references as deeply as a derivation does finds it. -/
theorem run_expand {d : Nat} {rule : Rule κ} {m : Bool} {i : Nat} {o : Outcome}
    (h : Derives source definitions d rule m i o) (hi : i ≤ source.last)
    (limit levels depth : Nat) (hd : d ≤ levels) (mode : Mode) (hm : mode.newlines = m) (s : σ) :
    (rule.run source depth (definitions.expand source limit levels) mode i s).1 = o := by
  obtain ⟨t, hx⟩ := h.exists_run_expand hi limit levels depth hd mode hm s
  rw [hx]

omit [Ledger σ] in
/-- A rule has one outcome only. -/
theorem unique {d e : Nat} {rule : Rule κ} {m : Bool} {i : Nat} {o o' : Outcome}
    (h : Derives source definitions d rule m i o) (h' : Derives source definitions e rule m i o')
    (hi : i ≤ source.last) : o = o' := by
  have hx := h.run_expand hi 0 _ 0 (Nat.le_max_left d e) ⟨m, false⟩ rfl ({} : State)
  have hy := h'.run_expand hi 0 _ 0 (Nat.le_max_right d e) ⟨m, false⟩ rfl ({} : State)
  exact hx.symm.trans hy

end Derives
end AnnotationScan.Peg
