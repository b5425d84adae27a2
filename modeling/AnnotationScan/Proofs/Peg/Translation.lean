import AnnotationScan.Proofs.Peg.Memoization

/-!
# The rest of a source

A rule looks at no token in front of the one where it is applied.  Applied to the tokens from `k` on
alone it does what it does on the whole row, and every index it tells of is `k` less.
-/

namespace AnnotationScan.Peg

variable {κ : Type}

/-- The tokens from an index on. -/
def Source.behind (source : Source κ) (k : Nat) : Source κ :=
  ⟨source.body.extract k source.body.size, source.marker⟩

namespace Source

variable {source : Source κ} {k : Nat}

@[simp] theorem last_behind : (source.behind k).last = source.last - k := by
  simp [behind, last]

@[simp] theorem lexeme_behind (i : Nat) : (source.behind k).lexeme i = source.lexeme (k + i) := by
  by_cases hi : k + i < source.body.size
  · have hi' : i < source.body.size - k := by omega
    simp [lexeme, behind, Array.getD, hi, hi']
  · have hi' : ¬i < source.body.size - k := by omega
    simp [lexeme, behind, Array.getD, hi, hi']

@[simp] theorem offset_behind (i : Nat) : (source.behind k).offset i = source.offset (k + i) := by
  rw [offset, lexeme_behind, offset]

theorem next_add (hk : k ≤ source.last) (i : Nat) :
    source.next (k + i) = k + (source.behind k).next i := by
  rw [next, next, last_behind]
  omega

theorem spanFrom_add (i j : Nat) :
    source.spanFrom (k + i) (k + j) = (source.behind k).spanFrom i j := by
  by_cases hji : j ≤ i
  · rw [spanFrom, spanFrom, if_pos hji, if_pos (Nat.add_le_add_left hji k), offset_behind]
  · have hlast : k + j - 1 = k + (j - 1) := by omega
    rw [spanFrom, spanFrom, if_neg hji, if_neg (by omega), lexeme_behind, lexeme_behind, hlast]

end Source

def Failure.shifted (failure : Failure) (k : Nat) : Failure :=
  { failure with index := k + failure.index }

namespace Failure

theorem shifted_deeper (f g : Failure) (k : Nat) :
    (f.deeper g).shifted k = (f.shifted k).deeper (g.shifted k) := by
  simp only [deeper, shifted, Nat.add_lt_add_iff_left]
  split <;> rfl

theorem outranks_shifted (f g : Failure) (k : Nat) :
    (f.shifted k).outranks (g.shifted k) = f.outranks g := by
  have hindex : (k + f.index == k + g.index) = (f.index == g.index) := by
    rw [Bool.eq_iff_iff, beq_iff_eq, beq_iff_eq, Nat.add_left_cancel_iff]
  simp only [outranks, shifted, Nat.add_lt_add_iff_left, hindex]

theorem shifted_better (f : Failure) (b : Option Failure) (k : Nat) :
    (f.better b).shifted k = (f.shifted k).better (b.map (·.shifted k)) := by
  cases b with
  | none => rfl
  | some b =>
      simp only [better, Option.map_some, outranks_shifted]
      split <;> rfl

end Failure

def Abort.shifted (cause : Abort) (k : Nat) : Abort :=
  match cause with
  | .fatal failure => .fatal (failure.shifted k)
  | .undefinedRule name => .undefinedRule name

def Outcome.shifted (outcome : Outcome) (k : Nat) : Outcome :=
  match outcome with
  | .matched value stop => .matched value (k + stop)
  | .failed failure => .failed (failure.shifted k)
  | .aborted cause => .aborted (cause.shifted k)

theorem Outcome.shifted_ofFailure (f : Failure) (k : Nat) :
    (Outcome.ofFailure f).shifted k = .ofFailure (f.shifted k) := by
  have hfatal : (f.shifted k).isFatal = f.isFatal := rfl
  rw [ofFailure, ofFailure, hfatal]
  split <;> rfl

theorem Application.compare_add (scope scope' rule rule' i i' k : Nat) (mode mode' : Mode) :
    Application.compare ⟨scope, rule, k + i, mode⟩ ⟨scope', rule', k + i', mode'⟩ = .eq ↔
      Application.compare ⟨scope, rule, i, mode⟩ ⟨scope', rule', i', mode'⟩ = .eq := by
  rw [Std.LawfulEqCmp.compare_eq_iff_eq, Std.LawfulEqCmp.compare_eq_iff_eq]
  simp only [Application.mk.injEq, Nat.add_left_cancel_iff]

/-- What was learnt on the tokens from `k` on was learnt on the whole row. -/
structure State.Shifted (k : Nat) (s t : State) : Prop where
  furthest : s.furthest = t.furthest.map (·.shifted k)
  memo : ∀ scope rule i mode, s.memo[(⟨scope, rule, k + i, mode⟩ : Application)]? =
    t.memo[(⟨scope, rule, i, mode⟩ : Application)]?.map (·.shifted k)

namespace State.Shifted

variable {k : Nat} {s t : State}

theorem note (h : s.Shifted k t) (f : Failure) : (s.note (f.shifted k)).Shifted k (t.note f) := by
  constructor
  · rw [furthest_note, furthest_note, h.furthest, Option.map_some, Failure.shifted_better]
  · intro scope rule i mode
    rw [memo_note, memo_note]
    exact h.memo scope rule i mode

theorem observe (h : s.Shifted k t) (e e' : Event) : (s.observe e).Shifted k (t.observe e') :=
  ⟨h.furthest, h.memo⟩

theorem remember (h : s.Shifted k t) (scope rule i : Nat) (mode : Mode) (o : Outcome) :
    (s.remember ⟨scope, rule, k + i, mode⟩ (o.shifted k)).Shifted k
      (t.remember ⟨scope, rule, i, mode⟩ o) := by
  have hinsert : ∀ o : Outcome,
      ({ s with memo := s.memo.insert ⟨scope, rule, k + i, mode⟩ (o.shifted k) } : State).Shifted k
        { t with memo := t.memo.insert ⟨scope, rule, i, mode⟩ o } := by
    intro o
    refine ⟨h.furthest, fun scope' rule' i' mode' => ?_⟩
    dsimp only
    rw [Std.TreeMap.getElem?_insert, Std.TreeMap.getElem?_insert]
    simp only [Application.compare_add]
    split
    · rfl
    · exact h.memo scope' rule' i' mode'
  cases o with
  | matched v j => exact hinsert (.matched v j)
  | failed f => exact hinsert (.failed f)
  | aborted cause => exact h

end State.Shifted

/-- The second result, on the tokens from `k` on, is the first one with smaller indices. -/
def Shifts (k : Nat) (x y : Outcome × State) : Prop :=
  ∃ o s t, x = (o.shifted k, s) ∧ y = (o, t) ∧ s.Shifted k t

namespace Source

variable {source : Source κ} {k : Nat} {s t : State}

theorem shifts_point (i : Nat) (hS : s.Shifted k t) :
    Shifts k (.matched (Span.point (source.offset (k + i))) (k + i), s)
      (.matched (Span.point ((source.behind k).offset i)) i, t) := by
  refine ⟨_, s, t, ?_, rfl, hS⟩
  rw [offset_behind]
  rfl

theorem shifts_spanFrom (i j : Nat) (hS : s.Shifted k t) :
    Shifts k (.matched (source.spanFrom (k + i) (k + j)) (k + j), s)
      (.matched ((source.behind k).spanFrom i j) j, t) := by
  refine ⟨_, s, t, ?_, rfl, hS⟩
  rw [spanFrom_add]
  rfl

theorem shifts_accept (hk : k ≤ source.last) (i : Nat) (hS : s.Shifted k t) :
    Shifts k (source.accept (k + i), s) ((source.behind k).accept i, t) := by
  refine ⟨_, s, t, ?_, rfl, hS⟩
  rw [accept, accept, next_add hk, lexeme_behind]
  rfl

theorem shifts_fail (reason : Reason) (mode : Mode) (i : Nat) (hS : s.Shifted k t) :
    Shifts k (source.fail reason mode (k + i) s) ((source.behind k).fail reason mode i t) := by
  have hfailure : (⟨reason, k + i, source.offset (k + i)⟩ : Failure) =
      Failure.shifted ⟨reason, i, (source.behind k).offset i⟩ k := by
    rw [offset_behind]
    rfl
  unfold fail
  dsimp only
  rw [hfailure, ← Outcome.shifted_ofFailure]
  refine ⟨_, _, _, rfl, rfl, ?_⟩
  split
  · exact hS
  · exact hS.note _

/-- Repetitions on the rest have as many rounds left as on the whole row. -/
theorem shifts_repeated {part part' : Matcher State} {mode : Mode}
    (hpart : ∀ i s t, s.Shifted k t → Shifts k (part mode (k + i) s) (part' mode i t))
    (start rounds i : Nat) (s t : State) (hS : s.Shifted k t) :
    Shifts k (source.repeated part mode (k + start) rounds (k + i) s)
      ((source.behind k).repeated part' mode start rounds i t) := by
  induction rounds generalizing i s t with
  | zero => exact shifts_spanFrom start i hS
  | succ rounds ih =>
      obtain ⟨o, s', t', hx, hy, hS'⟩ := hpart i s t hS
      rw [repeated, repeated, hx, hy]
      cases o with
      | matched v j =>
          dsimp only [Outcome.shifted]
          by_cases hji : j = i
          · rw [if_pos hji, if_pos (congrArg (k + ·) hji)]
            exact shifts_spanFrom start j hS'
          · rw [if_neg hji, if_neg (fun h => hji (Nat.add_left_cancel h))]
            exact ih j s' t' hS'
      | failed f => exact shifts_spanFrom start i hS'
      | aborted cause => exact ⟨_, s', t', rfl, rfl, hS'⟩

end Source

variable [DecidableEq κ] [Describe κ] {source : Source κ} {k : Nat}

/-- What a rule does at the token `k + i` it does at the token `i` of the rest, if references do. -/
theorem Rule.run_behind (hk : k ≤ source.last) {call call' : Nat → Matcher State}
    (hcall : ∀ r mode i s t, s.Shifted k t → Shifts k (call r mode (k + i) s) (call' r mode i t))
    (depth : Nat) (rule : Rule κ) (mode : Mode) (i : Nat) (s t : State) (hS : s.Shifted k t) :
    Shifts k (rule.run source depth call mode (k + i) s)
      (rule.run (source.behind k) depth call' mode i t) := by
  induction rule generalizing mode i s t with
  | token kind | word | keyword text =>
      rw [run, run, Source.lexeme_behind]
      split
      · exact Source.shifts_accept hk i hS
      · exact Source.shifts_fail _ mode i hS
  | nothing => exact Source.shifts_point i hS
  | andThen first second ihfirst ihsecond =>
      obtain ⟨o, s', t', hx, hy, hS'⟩ := ihfirst mode i s t hS
      rw [run, run, hx, hy]
      cases o with
      | matched v j =>
          obtain ⟨o, s'', t'', hx, hy, hS''⟩ := ihsecond mode j s' t' hS'
          dsimp only [Outcome.shifted]
          rw [hx, hy]
          cases o with
          | matched w l => exact Source.shifts_spanFrom i l hS''
          | failed f | aborted cause => exact ⟨_, s'', t'', rfl, rfl, hS''⟩
      | failed f | aborted cause => exact ⟨_, s', t', rfl, rfl, hS'⟩
  | orElse first second ihfirst ihsecond =>
      obtain ⟨o, s', t', hx, hy, hS'⟩ := ihfirst mode i s t hS
      rw [run, run, hx, hy]
      cases o with
      | matched v j => exact ⟨_, s', t', rfl, rfl, hS'⟩
      | failed f =>
          obtain ⟨o, s'', t'', hx, hy, hS''⟩ := ihsecond mode i s' t' hS'
          dsimp only [Outcome.shifted]
          rw [hx, hy]
          cases o with
          | matched w l => exact ⟨_, s'', t'', rfl, rfl, hS''⟩
          | failed g =>
              dsimp only [Outcome.shifted]
              rw [← Failure.shifted_deeper]
              exact ⟨_, s'', t'', rfl, rfl, hS''⟩
          | aborted cause => exact ⟨_, s'', t'', rfl, rfl, hS''⟩
      | aborted cause => exact ⟨_, s', t', rfl, rfl, hS'⟩
  | optional part ih =>
      obtain ⟨o, s', t', hx, hy, hS'⟩ := ih mode i s t hS
      rw [run, run, hx, hy]
      cases o with
      | matched v j => exact Source.shifts_spanFrom i j hS'
      | failed f => exact Source.shifts_point i hS'
      | aborted cause => exact ⟨_, s', t', rfl, rfl, hS'⟩
  | many part ih =>
      -- as many tokens are left on the rest as on the whole row, hence as many rounds
      have hrounds : source.last - (k + i) + 1 = (source.behind k).last - i + 1 := by
        rw [Source.last_behind, Nat.sub_add_eq]
      rw [run, run, hrounds]
      exact Source.shifts_repeated (ih mode) i _ i s t hS
  | ahead part ih =>
      obtain ⟨o, s', t', hx, hy, hS'⟩ := ih mode i s t hS
      rw [run, run, hx, hy]
      cases o with
      | matched v j => exact Source.shifts_point i hS'
      | failed f | aborted cause => exact ⟨_, s', t', rfl, rfl, hS'⟩
  | notAhead part ih =>
      obtain ⟨o, s', t', hx, hy, hS'⟩ := ih { mode with quiet := true } i s t hS
      rw [run, run, hx, hy]
      cases o with
      | matched v j =>
          dsimp only [Outcome.shifted]
          rw [Source.lexeme_behind]
          exact Source.shifts_fail _ mode i hS'
      | failed f => exact Source.shifts_point i hS'
      | aborted cause => exact ⟨_, s', t', rfl, rfl, hS'⟩
  | lineBreak =>
      rw [run, run, Source.lexeme_behind]
      split
      · exact Source.shifts_point i hS
      · exact Source.shifts_fail _ mode i hS
  | newlines count part ih => exact ih { mode with newlines := count } i s t hS
  | fail reason => exact Source.shifts_fail reason mode i hS
  | any => exact Source.shifts_accept hk i hS
  | failNext reason =>
      rw [run, run, Source.next_add hk]
      exact Source.shifts_fail reason mode _ hS
  | endPoint part ih =>
      obtain ⟨o, s', t', hx, hy, hS'⟩ := ih mode i s t hS
      rw [run, run, hx, hy]
      cases o with
      | matched v j => exact ⟨.matched (Span.point v.stop) j, s', t', rfl, rfl, hS'⟩
      | failed f | aborted cause => exact ⟨_, s', t', rfl, rfl, hS'⟩
  | traced name part ih =>
      -- the two logs may differ, since nothing a rule does depends on its log
      obtain ⟨o, s', t', hx, hy, hS'⟩ := ih mode i s t hS
      rw [run, run, hx, hy]
      exact ⟨o, _, _, rfl, rfl, hS'.observe _ _⟩
  | ref r => exact hcall r mode i s t hS

namespace Definitions

variable {definitions : Definitions κ} {limit levels rule i : Nat} {mode : Mode} {s t : State}

/-- A result that was found before and a rule without a body need no parse. -/
theorem shifts_invoke (hS : s.Shifted k t)
    (hbody : ∀ body, definitions.body? rule = some body →
      s.memo[(⟨definitions.scope, rule, k + i, mode⟩ : Application)]? = none →
      t.memo[(⟨definitions.scope, rule, i, mode⟩ : Application)]? = none →
      Shifts k (definitions.invoke source limit levels rule mode (k + i) s)
        (definitions.invoke (source.behind k) limit levels rule mode i t)) :
    Shifts k (definitions.invoke source limit levels rule mode (k + i) s)
      (definitions.invoke (source.behind k) limit levels rule mode i t) := by
  have hmemo := hS.memo definitions.scope rule i mode
  cases ht : t.memo[(⟨definitions.scope, rule, i, mode⟩ : Application)]? with
  | some o =>
      rw [ht, Option.map_some] at hmemo
      rw [invoke_recall hmemo, invoke_recall ht]
      exact ⟨o, s, t, rfl, rfl, hS⟩
  | none =>
      rw [ht, Option.map_none] at hmemo
      cases hsome : definitions.body? rule with
      | some body => exact hbody body hsome hmemo ht
      | none =>
          rw [invoke_undefined hmemo hsome, invoke_undefined ht hsome]
          exact ⟨_, s, t, rfl, rfl, hS⟩

theorem invoke_behind (definitions : Definitions κ) (hk : k ≤ source.last)
    (limit levels rule : Nat) (mode : Mode) (i : Nat) (s t : State) (hS : s.Shifted k t) :
    Shifts k (definitions.invoke source limit levels rule mode (k + i) s)
      (definitions.invoke (source.behind k) limit levels rule mode i t) := by
  induction levels generalizing rule mode i s t with
  | zero =>
      apply shifts_invoke hS
      intro body hbody hs ht
      rw [invoke_zero hs hbody, invoke_zero ht hbody]
      exact Source.shifts_fail _ mode i hS
  | succ levels ih =>
      apply shifts_invoke hS
      intro body hbody hs ht
      obtain ⟨o, s', t', hx, hy, hS'⟩ := body.run_behind hk ih (limit - levels) mode i s t hS
      rw [invoke_body hs hbody, invoke_body ht hbody, hx, hy]
      exact ⟨o, _, _, rfl, rfl, hS'.remember _ _ _ _ o⟩

end Definitions
end AnnotationScan.Peg
