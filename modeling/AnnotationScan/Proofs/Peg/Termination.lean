import Mathlib.Algebra.Group.Nat.Defs
import AnnotationScan.Proofs.Peg.Simulation

/-!
# Every parse comes to an end

The machine comes to its end within a number of steps that is computed from the sizes of the rules,
the number of tokens and the limit on nesting, whatever the rules are: they may be left recursive, or
repeat what matches nothing.
-/

namespace AnnotationScan.Peg

variable {κ : Type}

namespace Rule

def size : Rule κ → Nat
  | .andThen first second | .orElse first second => first.size + second.size + 1
  | .optional part | .many part | .ahead part | .notAhead part | .newlines _ part
  | .endPoint part | .traced _ part => part.size + 1
  | _ => 1

/-- The steps that a rule may take, if its repetitions have so many rounds and its references take
so many steps. -/
def steps (rounds call : Nat) : Rule κ → Nat
  | .andThen first second | .orElse first second =>
    first.steps rounds call + second.steps rounds call + 8
  | .many part => rounds * (part.steps rounds call + 4)
  | .optional part | .ahead part | .notAhead part | .newlines _ part | .endPoint part
  | .traced _ part => part.steps rounds call + 4
  | .ref _ => call
  | _ => 0

theorem steps_le {rounds call : Nat} (hrounds : 0 < rounds) (hcall : 0 < call) (rule : Rule κ) :
    rule.steps rounds call + 4 ≤ (6 * rounds) ^ rule.size * call := by
  have hpos : ∀ n, 0 < (6 * rounds) ^ n := fun n =>
    Nat.pow_pos (Nat.mul_pos (by decide) hrounds)
  -- one more operator makes the bound six times as large, and there is one more factor for rounds
  have hgrow : ∀ n, 6 * (rounds * ((6 * rounds) ^ n * call)) = (6 * rounds) ^ (n + 1) * call := by
    intro n
    rw [Nat.pow_succ]
    ac_rfl
  have hrounds' : ∀ n, n ≤ rounds * n := fun n => Nat.le_mul_of_pos_left n hrounds
  induction rule with
  | andThen first second ihfirst ihsecond | orElse first second ihfirst ihsecond =>
      simp only [steps, size]
      rw [← hgrow]
      have hfirst : (6 * rounds) ^ first.size * call ≤
          (6 * rounds) ^ (first.size + second.size) * call := by
        rw [Nat.pow_add]
        exact Nat.mul_le_mul_right call (Nat.le_mul_of_pos_right _ (hpos _))
      have hsecond : (6 * rounds) ^ second.size * call ≤
          (6 * rounds) ^ (first.size + second.size) * call := by
        rw [Nat.pow_add]
        exact Nat.mul_le_mul_right call (Nat.le_mul_of_pos_left _ (hpos _))
      have hone := Nat.mul_pos (hpos (first.size + second.size)) hcall
      have hle := hrounds' ((6 * rounds) ^ (first.size + second.size) * call)
      omega
  | many part ih =>
      simp only [steps, size]
      rw [← hgrow]
      have hpart := Nat.mul_le_mul_left rounds ih
      have hone := Nat.mul_pos hrounds (Nat.mul_pos (hpos part.size) hcall)
      omega
  | optional part ih | ahead part ih | notAhead part ih | newlines _ part ih | endPoint part ih
  | traced _ part ih =>
      simp only [steps, size]
      rw [← hgrow]
      have hone := Nat.mul_pos (hpos part.size) hcall
      have hle := hrounds' ((6 * rounds) ^ part.size * call)
      omega
  | _ =>
      simp only [steps, size]
      rw [← Nat.zero_add 1, ← hgrow, Nat.pow_zero, Nat.one_mul]
      have hle := hrounds' call
      omega

end Rule

namespace Definitions

variable {definitions : Definitions κ}

def bodySize (definitions : Definitions κ) : Nat :=
  definitions.entries.toList.foldr (fun entry most => max (entry.body.elim 0 Rule.size) most) 0

/-- The steps that a reference may take if there are so many levels left. -/
def callSteps (definitions : Definitions κ) (rounds levels : Nat) : Nat :=
  2 * (6 * rounds) ^ (levels * definitions.bodySize)

theorem size_le_bodySize {r : Nat} {body : Rule κ} (h : definitions.body? r = some body) :
    body.size ≤ definitions.bodySize := by
  obtain ⟨entry, hentry, hbody⟩ := Option.bind_eq_some_iff.1 h
  have hle : ∀ entries : List (Definition κ), entry ∈ entries → body.size ≤
      entries.foldr (fun entry most => max (entry.body.elim 0 Rule.size) most) 0 := by
    intro entries hmem
    induction entries with
    | nil => cases hmem
    | cons other entries ih =>
        rw [List.foldr_cons]
        rcases List.mem_cons.1 hmem with rfl | hrest
        · rw [hbody]
          exact Nat.le_max_left _ _
        · exact Nat.le_trans (ih hrest) (Nat.le_max_right _ _)
  apply hle
  rw [Array.mem_toList_iff]
  exact Array.mem_of_getElem? hentry

variable {rounds : Nat} (hrounds : 0 < rounds)

include hrounds

theorem two_le_callSteps (levels : Nat) : 2 ≤ definitions.callSteps rounds levels :=
  Nat.le_mul_of_pos_right 2 (Nat.pow_pos (Nat.mul_pos (by decide) hrounds))

theorem steps_le (rule : Rule κ) (levels : Nat) :
    rule.steps rounds (definitions.callSteps rounds levels) + 4 ≤
      2 * (6 * rounds) ^ (rule.size + levels * definitions.bodySize) := by
  have htwo : 2 ≤ definitions.callSteps rounds levels := two_le_callSteps hrounds levels
  have hsteps := rule.steps_le hrounds (Nat.lt_of_lt_of_le Nat.two_pos htwo)
  apply Nat.le_trans hsteps
  rw [callSteps, Nat.pow_add]
  apply Nat.le_of_eq
  ac_rfl

theorem steps_le_callSteps {r : Nat} {body : Rule κ} (h : definitions.body? r = some body)
    (levels : Nat) : body.steps rounds (definitions.callSteps rounds levels) + 4 ≤
      definitions.callSteps rounds (levels + 1) := by
  apply Nat.le_trans (definitions.steps_le hrounds body levels)
  rw [callSteps, Nat.succ_mul levels, Nat.add_comm body.size]
  apply Nat.mul_le_mul_left
  apply Nat.pow_le_pow_right (Nat.mul_pos (by decide) hrounds)
  exact Nat.add_le_add_left (size_le_bodySize h) _

end Definitions

namespace Machine

variable [DecidableEq κ] [Describe κ] {definitions : Definitions κ} {source : Source κ}
  {limit levels : Nat}

theorem Runs.mono {rule : Rule κ} {n k : Nat} (h : Runs definitions source limit levels rule n)
    (hle : n ≤ k) : Runs definitions source limit levels rule k := by
  intro head frames hb hdepth
  obtain ⟨index, hindex, hwalk⟩ := h head frames hb hdepth
  exact ⟨index, hindex, hwalk.mono hle⟩

/-- If the references of a rule take so many steps the rule takes as many as it may. -/
theorem runs_of_calls {call : Nat}
    (hcall : ∀ r, Runs definitions source limit levels (.ref r) call) (rule : Rule κ) :
    Runs definitions source limit levels rule (rule.steps source.size call) := by
  induction rule with
  | token kind | word | keyword text =>
      intro head frames hb _
      apply Answers.of_walks
      rw [outcome, Rule.run, begin]
      split
      · exact walks_accept hb
      · exact walks_fail hb _
  | lineBreak =>
      intro head frames hb _
      apply Answers.of_walks
      rw [outcome, Rule.run, begin]
      change Walks _ _ _ _ (if head.newlines && _ then _ else _)
        (answered _ _ (if head.newlines && _ then _ else _))
      split
      · exact walks_stay hb
      · exact walks_fail hb _
  | nothing => exact fun _ _ hb _ => .of_walks (walks_stay hb)
  | any => exact fun _ _ hb _ => .of_walks (walks_accept hb)
  | fail reason => exact fun _ _ hb _ => .of_walks (walks_fail hb reason)
  | failNext reason => exact runs_failNext reason
  | andThen first second ihfirst ihsecond =>
      apply (runs_andThen ihfirst.parses ihsecond.parses).mono
      rw [Rule.steps]
      omega
  | orElse first second ihfirst ihsecond =>
      apply (runs_orElse ihfirst.parses ihsecond.parses).mono
      rw [Rule.steps]
      omega
  | optional part ih => exact runs_optional ih.parses
  | many part ih => exact runs_many ih.parses
  | ahead part ih => exact runs_ahead ih.parses
  | notAhead part ih => exact runs_notAhead ih.parses
  | newlines count part ih => exact runs_newlines count ih.parses
  | endPoint part ih => exact runs_endPoint ih.parses
  | traced name part ih => exact runs_traced name ih.parses
  | ref r => exact hcall r

theorem runs_call (definitions : Definitions κ) (source : Source κ) (limit levels r : Nat) :
    Runs definitions source limit levels (.ref r) (definitions.callSteps source.size levels) := by
  have hsize : 0 < source.size := Nat.succ_pos _
  have htwo : ∀ levels, 2 ≤ definitions.callSteps source.size levels :=
    Definitions.two_le_callSteps hsize
  induction levels generalizing r with
  | zero =>
      have hbody : ∀ body fewer, definitions.body? r = some body → 0 = fewer + 1 →
          Runs definitions source limit fewer body 0 := fun _ _ _ hlevels => nomatch hlevels
      exact (runs_ref r hbody).mono (htwo 0)
  | succ levels ih =>
      -- the body is run one level deeper, where its own references take fewer steps
      have hbody : ∀ body fewer, definitions.body? r = some body → levels + 1 = fewer + 1 →
          Runs definitions source limit fewer body
            (definitions.callSteps source.size (levels + 1) - 2) := by
        rintro body fewer hsome ⟨⟩
        apply (runs_of_calls ih body).mono
        have hsteps := Definitions.steps_le_callSteps hsize hsome levels
        omega
      apply (runs_ref r hbody).mono
      exact Nat.le_of_eq (Nat.sub_add_cancel (htwo (levels + 1)))

theorem parses (definitions : Definitions κ) (source : Source κ) (limit levels : Nat)
    (rule : Rule κ) :
    Parses definitions source limit levels rule
      (2 * (6 * source.size) ^ (rule.size + levels * definitions.bodySize)) := by
  intro head frames hb hdepth
  have hrun := runs_of_calls (runs_call definitions source limit levels) rule
  apply (hrun.parses head frames hb hdepth).mono
  exact Nat.le_of_succ_le (Definitions.steps_le (Nat.succ_pos _) rule levels)

theorem answered_outcome (head : Head κ) (frames : List (Frame κ)) (definitions : Definitions κ)
    (rule : Rule κ) :
    answered head frames (outcome definitions (head.maxDepth - head.depth) head rule) =
      ⟨.answer (head.cursor.parse definitions rule).1,
        head.follow (head.cursor.parse definitions rule).2, frames⟩ := rfl

theorem after_add (n k : Nat) (machine : Machine κ) :
    machine.after definitions (n + k) = (machine.after definitions n).after definitions k := by
  induction n generalizing machine with
  | zero => rw [Nat.zero_add, after]
  | succ n ih =>
      rw [Nat.succ_add, after, after]
      exact ih _

theorem after_answer (n : Nat) (outcome : Outcome) (head : Head κ) :
    (⟨.answer outcome, head, []⟩ : Machine κ).after definitions n = ⟨.answer outcome, head, []⟩ := by
  induction n with
  | zero => rfl
  | succ n ih => exact ih

end Machine

namespace Session

variable [DecidableEq κ] [Describe κ] {source : Source κ} {session : Session κ}

theorem Attained.inBounds (h : Attained source session) :
    Machine.InBounds source session.cursor.maxDepth (.ofCursor session.cursor) [] := by
  obtain ⟨⟨⟨rfl, hdepth, -, hindex⟩, -⟩, hplaced⟩ := h.placed
  refine ⟨rfl, rfl, hindex, hplaced.liesIn, hdepth, ?_, fun _ hframe => nomatch hframe⟩
  exact Nat.le_trans (Nat.le_of_eq hdepth) (Nat.zero_le _)

/-- The machine comes to its end within the bound, answers what the parse answers, and is in bounds
before and after. -/
theorem Attained.machine (h : Attained source session) (rule : Rule κ) :
    let cursor := session.cursor
    let parsed := cursor.parse session.definitions rule
    let machine := (Machine.start rule cursor).after session.definitions
    ∃ m ≤ 2 * (6 * source.size) ^
        (rule.size + cursor.maxDepth * session.definitions.bodySize),
      (∀ n, m ≤ n → machine n = ⟨.answer parsed.1, .ofCursor parsed.2, []⟩) ∧
      ∀ n, Machine.InBounds source cursor.maxDepth (machine n).head (machine n).frames := by
  intro cursor parsed machine
  have hb := h.inBounds
  have hparse := Machine.parses session.definitions source cursor.maxDepth
    (cursor.maxDepth - cursor.depth) rule (.ofCursor cursor) [] hb (Nat.add_sub_cancel' hb.depth_le)
  obtain ⟨m, hm, hend, hbounds⟩ := hparse.after
  have hstop : machine m = ⟨.answer parsed.1, .ofCursor parsed.2, []⟩ := by
    apply hend.trans
    refine (Machine.answered_outcome (.ofCursor cursor) [] session.definitions rule).trans ?_
    rw [Head.cursor_ofCursor]
    rfl
  have hstays : ∀ n, m ≤ n → machine n = ⟨.answer parsed.1, .ofCursor parsed.2, []⟩ := by
    intro n hn
    obtain ⟨k, rfl⟩ := Nat.exists_eq_add_of_le hn
    change (Machine.start rule cursor).after session.definitions (m + k) = _
    rw [Machine.after_add]
    change (machine m).after session.definitions k = _
    rw [hstop, Machine.after_answer]
  refine ⟨m, ?_, hstays, fun n => ?_⟩
  · apply Nat.le_trans hm
    apply Nat.mul_le_mul_left
    apply Nat.pow_le_pow_right (Nat.mul_pos (by decide) (Nat.succ_pos _))
    apply Nat.add_le_add_left
    exact Nat.mul_le_mul_right _ (Nat.sub_le _ _)
  · rcases Nat.le_total n m with hn | hn
    · exact hbounds n hn
    · rw [hstays n hn, ← hstop]
      exact hbounds m (Nat.le_refl m)

/-- Every parse terminates: the machine has the outcome of the parse within a bound that is computed
from the sizes of the rules, the number of tokens and the limit on nesting.  No more recursive rules
are being applied at any time than the limit allows, and no repetition has more rounds than there
were tokens left at its start, and one more.  If all references are defined the rule matches or
fails. -/
theorem parse_terminates (h : Attained source session) (rule : Rule κ) :
    let cursor := session.cursor
    let parsed := cursor.parse session.definitions rule
    let machine := (Machine.start rule cursor).after session.definitions
    let bound := 2 * (6 * source.size) ^
      (rule.size + cursor.maxDepth * session.definitions.bodySize)
    (machine bound).result? = some (parsed.1, .ofCursor parsed.2) ∧
    (∀ n, (machine n).frames.countP Frame.isCall ≤ cursor.maxDepth ∧
      ∀ start before made part, .rounds start before made part ∈ (machine n).frames →
        made ≤ source.last - start + 1) ∧
    ∀ known, session.definitions.Closed known → (∀ r, rule.RefersTo r → known r) →
      (∃ value stop, parsed.1 = .matched value stop) ∨
        ∃ failure, parsed.1.failure? = some failure := by
  intro cursor parsed machine bound
  obtain ⟨m, hm, hend, hbounds⟩ := h.machine rule
  refine ⟨?_, fun n => ⟨?_, ?_⟩, ?_⟩
  · exact congrArg Machine.result? (hend bound hm)
  · exact Nat.le_trans (Nat.le_of_eq (hbounds n).depth_eq.symm) (hbounds n).depth_le
  · intro start before made part hmem
    exact (hbounds n).fits _ hmem
  · intro known hclosed hrule
    obtain ⟨hinside, hplaced⟩ := h.placed
    exact (hclosed.run_placed _ _ _ _ hrule cursor.mode cursor.index cursor.state hplaced.index_le
      ⟨hplaced.liesIn, rfl⟩).1.matched_or_failure

/-- A left-recursive rule, and another one that repeats what matches nothing and leads back. -/
def loops : Definitions Char where
  scope := 0
  entries := #[⟨"sum", some (.orElse (.andThen (.ref 1) (.token '+')) .word)⟩,
    ⟨"part", some (.andThen (.many (.optional (.token '-'))) (.ref 0))⟩]

theorem loops_closed : loops.Closed (· < 2) where
  defined r hr := by
    match r, hr with
    | 0, _ => exact ⟨_, rfl⟩
    | 1, _ => exact ⟨_, rfl⟩
  closed r body hr hbody := by
    match r, hr with
    | 0, _ =>
        obtain rfl := Option.some.inj hbody
        rintro r' ((rfl | h) | h)
        · decide
        · cases h
        · cases h
    | 1, _ =>
        obtain rfl := Option.some.inj hbody
        rintro r' (h | rfl)
        · cases h
        · decide

/-- The recursion is stopped by the limit, and the repetition by not moving on. -/
theorem parse_terminates_loops :
    let source := Source.ofWords "a+b"
    let session := Session.start source loops 4 false
    let machine := (Machine.start (.ref 0) session.cursor).after session.definitions
    let bound := 2 * (6 * source.size) ^
      ((Rule.ref 0 : Rule Char).size + session.cursor.maxDepth * session.definitions.bodySize)
    (∃ head, (machine bound).result? = some (.aborted (.fatal ⟨.depthLimit 4, 0, 0⟩), head)) ∧
      (∀ n, (machine n).frames.countP Frame.isCall ≤ 4 ∧
        ∀ start before made part, .rounds start before made part ∈ (machine n).frames →
          made ≤ source.last - start + 1) ∧
      ∃ failure, (session.cursor.parse session.definitions (.ref 0)).1.failure? = some failure := by
  intro source session machine bound
  have hsession : Attained source session := .start loops 4 false
  obtain ⟨hresult, hbounds, hdefined⟩ := parse_terminates hsession (.ref 0)
  have ho : (session.cursor.parse session.definitions (.ref 0)).1 =
      .aborted (.fatal ⟨.depthLimit 4, 0, 0⟩) := by
    decide +kernel
  have hrefers : ∀ r, (Rule.ref 0 : Rule Char).RefersTo r → r < 2 := by
    rintro r rfl
    decide
  rw [ho] at hresult
  refine ⟨⟨_, hresult⟩, hbounds, ?_⟩
  rcases hdefined (· < 2) loops_closed hrefers with ⟨value, stop, hmatched⟩ | hfailed
  · cases ho.symm.trans hmatched
  · exact hfailed

end Session

end AnnotationScan.Peg
