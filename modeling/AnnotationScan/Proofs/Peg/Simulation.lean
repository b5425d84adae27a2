import AnnotationScan.Proofs.Peg.Machine

/-!
# The machine does what a parse does

From any state of a parse in progress the machine comes to the outcome that `Rule.run` gives, with
all frames in place and nothing changed on the head but its place and what was learnt.  On the way it
stays in bounds: inside the source, below the limit on nesting, and with no more rounds in a
repetition than there are tokens left.
-/

namespace AnnotationScan.Peg

variable {κ : Type}

/-- A repetition has not had more rounds than there were tokens left at its start, and one more. -/
def Frame.Fits (source : Source κ) : Frame κ → Prop
  | .rounds start _ made _ => made ≤ source.last - start + 1
  | _ => True

namespace Machine

/-- What is true of the head and the frames of a parse throughout. -/
structure InBounds (source : Source κ) (limit : Nat) (head : Head κ) (frames : List (Frame κ)) :
    Prop where
  source_eq : head.source = source
  maxDepth_eq : head.maxDepth = limit
  index_le : head.index ≤ source.last
  liesIn : head.state.LiesIn source
  /-- The depth of the head is the number of recursive rules that are being applied. -/
  depth_eq : head.depth = frames.countP Frame.isCall
  depth_le : head.depth ≤ limit
  fits : ∀ frame ∈ frames, frame.Fits source

namespace InBounds

variable {source : Source κ} {limit : Nat} {head : Head κ} {frames : List (Frame κ)}

theorem push (h : InBounds source limit head frames) (frame : Frame κ)
    (hcall : frame.isCall = false) (hfits : frame.Fits source) :
    InBounds source limit head (frame :: frames) where
  source_eq := h.source_eq
  maxDepth_eq := h.maxDepth_eq
  index_le := h.index_le
  liesIn := h.liesIn
  depth_eq := by rw [h.depth_eq, List.countP_cons_of_neg (by simp [hcall])]
  depth_le := h.depth_le
  fits := List.forall_mem_cons.2 ⟨hfits, h.fits⟩

theorem enter (h : InBounds source limit head frames) (hlt : head.depth < limit)
    (key : Application) :
    InBounds source limit { head with depth := head.depth + 1 } (.call key :: frames) where
  source_eq := h.source_eq
  maxDepth_eq := h.maxDepth_eq
  index_le := h.index_le
  liesIn := h.liesIn
  depth_eq := by rw [List.countP_cons_of_pos rfl, ← h.depth_eq]
  depth_le := hlt
  fits := List.forall_mem_cons.2 ⟨trivial, h.fits⟩

theorem set (h : InBounds source limit head frames) {index : Nat} {state : State}
    (hi : index ≤ source.last) (hs : state.LiesIn source) :
    InBounds source limit { head with index, state } frames :=
  ⟨h.source_eq, h.maxDepth_eq, hi, hs, h.depth_eq, h.depth_le, h.fits⟩

theorem setMode (h : InBounds source limit head frames) (newlines : Bool) (quiet : Nat) :
    InBounds source limit { head with newlines, quiet } frames :=
  ⟨h.source_eq, h.maxDepth_eq, h.index_le, h.liesIn, h.depth_eq, h.depth_le, h.fits⟩

theorem next_le (h : InBounds source limit head frames) :
    head.source.next head.index ≤ source.last := by
  rw [← h.source_eq]
  exact head.source.next_le_last head.index

end InBounds

variable [DecidableEq κ] [Describe κ] {definitions : Definitions κ} {source : Source κ}
  {limit levels : Nat}

/-- The machine comes from one state to another in at most so many steps, and is in bounds all the
way. -/
inductive Walks (definitions : Definitions κ) (source : Source κ) (limit : Nat) :
    Nat → Machine κ → Machine κ → Prop
  | refl {n : Nat} {machine : Machine κ} (h : InBounds source limit machine.head machine.frames) :
      Walks definitions source limit n machine machine
  | step {n : Nat} {machine stop : Machine κ}
      (h : InBounds source limit machine.head machine.frames)
      (hrest : Walks definitions source limit n (step definitions machine) stop) :
      Walks definitions source limit (n + 1) machine stop

namespace Walks

variable {n k : Nat} {a b c : Machine κ}

theorem mono (h : Walks definitions source limit n a b) (hle : n ≤ k) :
    Walks definitions source limit k a b := by
  induction h generalizing k with
  | refl hb => exact .refl hb
  | step hb _ ih =>
      obtain ⟨k, rfl⟩ : ∃ l, k = l + 1 := ⟨k - 1, by omega⟩
      exact .step hb (ih (by omega))

theorem trans (h : Walks definitions source limit n a b)
    (h' : Walks definitions source limit k b c) :
    Walks definitions source limit (n + k) a c := by
  induction h with
  | refl _ => exact h'.mono (Nat.le_add_left k _)
  | step hb _ ih =>
      rw [Nat.add_right_comm]
      exact .step hb (ih h')

theorem inBounds (h : Walks definitions source limit n a b) :
    InBounds source limit b.head b.frames := by
  induction h with
  | refl hb => exact hb
  | step _ _ ih => exact ih

theorem append (h : Walks definitions source limit n a b)
    (h' : Walks definitions source limit k (Machine.step definitions b) c) :
    Walks definitions source limit (n + k + 1) a c :=
  h.trans (.step h.inBounds h')

theorem concat (h : Walks definitions source limit n a b)
    (hstep : InBounds source limit (Machine.step definitions b).head
      (Machine.step definitions b).frames) :
    Walks definitions source limit (n + 1) a (Machine.step definitions b) :=
  h.trans (.step h.inBounds (.refl hstep))

theorem after (h : Walks definitions source limit n a b) :
    ∃ m ≤ n, a.after definitions m = b ∧
      ∀ l ≤ m, InBounds source limit (a.after definitions l).head
        (a.after definitions l).frames := by
  induction h with
  | refl hb =>
      refine ⟨0, Nat.zero_le _, rfl, fun l hl => ?_⟩
      obtain rfl := Nat.le_zero.1 hl
      exact hb
  | step hb _ ih =>
      obtain ⟨m, hle, hstop, hbounds⟩ := ih
      refine ⟨m + 1, Nat.succ_le_succ hle, hstop, fun l hl => ?_⟩
      cases l with
      | zero => exact hb
      | succ l => exact hbounds l (Nat.le_of_succ_le_succ hl)

end Walks

def outcome (definitions : Definitions κ) (levels : Nat) (head : Head κ) (rule : Rule κ) :
    Outcome × State :=
  rule.run head.source head.depth (definitions.invoke head.source head.maxDepth levels) head.mode
    head.index head.state

theorem run_eq_outcome (levels : Nat) (head : Head κ) (rule : Rule κ) :
    rule.run head.source head.depth (definitions.invoke head.source head.maxDepth levels) head.mode
      head.index head.state = outcome definitions levels head rule := rfl

omit [DecidableEq κ] [Describe κ] in
/-- A machine that answers what a parse has made of a rule: the head is behind the match, or where
it was, and the rest of it is as it was. -/
def answered (head : Head κ) (frames : List (Frame κ)) (parsed : Outcome × State) : Machine κ :=
  ⟨.answer parsed.1, { head with index := parsed.1.stop?.getD head.index, state := parsed.2 },
    frames⟩

/-- The machine parses a rule in at most so many steps. -/
def Parses (definitions : Definitions κ) (source : Source κ) (limit levels : Nat) (rule : Rule κ)
    (steps : Nat) : Prop :=
  ∀ head frames, InBounds source limit head frames → head.depth + levels = limit →
    Walks definitions source limit steps ⟨.parse rule, head, frames⟩
      (answered head frames (outcome definitions levels head rule))

/-- The machine answers what a parse has made of a rule.  If the rule does not match the head may
stand anywhere: it has still to go back. -/
def Answers (definitions : Definitions κ) (source : Source κ) (limit steps : Nat)
    (machine : Machine κ) (head : Head κ) (frames : List (Frame κ)) (parsed : Outcome × State) :
    Prop :=
  ∃ index, (∀ stop, parsed.1.stop? = some stop → index = stop) ∧
    Walks definitions source limit steps machine
      ⟨.answer parsed.1, { head with index, state := parsed.2 }, frames⟩

/-- The machine runs a rule in at most so many steps behind the first one. -/
def Runs (definitions : Definitions κ) (source : Source κ) (limit levels : Nat) (rule : Rule κ)
    (steps : Nat) : Prop :=
  ∀ head frames, InBounds source limit head frames → head.depth + levels = limit →
    Answers definitions source limit steps (begin head frames definitions rule) head frames
      (outcome definitions levels head rule)

section

variable {head : Head κ} {frames : List (Frame κ)} {rule part first second : Rule κ} {n k : Nat}

theorem InBounds.outcome_liesIn (h : InBounds source limit head frames)
    (definitions : Definitions κ) (levels : Nat) (rule : Rule κ) :
    (outcome definitions levels head rule).1.LiesIn source True head.index ∧
      (outcome definitions levels head rule).2.LiesIn source := by
  obtain rfl := h.source_eq
  obtain ⟨ho, hs⟩ := rule.run_invoke_placed definitions head.state.log.isSome head.maxDepth levels
    head.depth head.mode head.index head.state h.index_le ⟨h.liesIn, rfl⟩
  exact ⟨ho, hs.liesIn⟩

omit [DecidableEq κ] [Describe κ] in
theorem InBounds.answered (h : InBounds source limit head frames) {x : Outcome × State}
    (ho : x.1.LiesIn source True head.index) (hs : x.2.LiesIn source) :
    InBounds source limit (answered head frames x).head (answered head frames x).frames :=
  h.set (ho.index_le h.index_le) hs

theorem Runs.parses (h : Runs definitions source limit levels rule n) :
    Parses definitions source limit levels rule (n + 3) := by
  intro head frames hb hdepth
  have hb' := hb.push (.goBack head.index) rfl trivial
  obtain ⟨index, hindex, hwalk⟩ := h head _ hb' hdepth
  obtain ⟨ho, hs⟩ := hb.outcome_liesIn definitions levels rule
  generalize outcome definitions levels head rule = x at hindex hwalk ho hs ⊢
  obtain ⟨o, t⟩ := x
  cases o with
  | matched v j =>
      obtain rfl := hindex j rfl
      exact .step hb (.step hb' (hwalk.concat (hb.set ho.2 hs)))
  | failed f => exact .step hb (.step hb' (hwalk.concat (hb.set hb.index_le hs)))
  | aborted cause => exact .step hb (.step hb' (hwalk.concat (hb.set hb.index_le hs)))

theorem Answers.of_walks {machine : Machine κ} {x : Outcome × State}
    (h : Walks definitions source limit n machine (answered head frames x)) :
    Answers definitions source limit n machine head frames x := by
  refine ⟨x.1.stop?.getD head.index, fun stop hstop => ?_, h⟩
  rw [hstop]
  rfl

theorem walks_accept (hb : InBounds source limit head frames) :
    Walks definitions source limit 0 (accept head frames)
      (answered head frames (head.source.accept head.index, head.state)) :=
  .refl (hb.set hb.next_le hb.liesIn)

theorem walks_stay (hb : InBounds source limit head frames) :
    Walks definitions source limit 0 (stay head frames)
      (answered head frames (head.source.stay head.index, head.state)) :=
  .refl (hb.set hb.index_le hb.liesIn)

omit [DecidableEq κ] [Describe κ] in
theorem answered_fail (reason : Reason) (mode : Mode) (index : Nat) (state : State) :
    answered head frames (head.source.fail reason mode index state) =
      ⟨.answer (.ofFailure (head.source.failureAt reason index)),
        { head with state := (head.source.fail reason mode index state).2 }, frames⟩ := by
  unfold answered
  rw [Source.fail_fst]
  unfold Outcome.ofFailure
  split <;> rfl

theorem walks_fail (hb : InBounds source limit head frames) (reason : Reason) :
    Walks definitions source limit 0 (fail head frames reason)
      (answered head frames (head.source.fail reason head.mode head.index head.state)) := by
  rw [answered_fail]
  exact .refl (hb.set hb.index_le
    (Source.fail_inv (fun _ f hs => hs.note f) _ reason _ _ hb.liesIn))

theorem runs_failNext (reason : Reason) :
    Runs definitions source limit levels (.failNext reason) 0 := by
  intro head frames hb _
  rw [outcome, Rule.run, begin]
  refine ⟨head.source.next head.index, ?_, .refl ?_⟩
  · rw [Source.fail_fst, Outcome.ofFailure]
    intro stop hstop
    split at hstop <;> cases hstop
  · exact hb.set hb.next_le (Source.fail_inv (fun _ f hs => hs.note f) _ reason _ _ hb.liesIn)

theorem runs_andThen (hfirst : Parses definitions source limit levels first n)
    (hsecond : Parses definitions source limit levels second k) :
    Runs definitions source limit levels (.andThen first second) (n + k + 2) := by
  intro head frames hb hdepth
  apply Answers.of_walks
  have hwalk := hfirst head _ (hb.push (.thenParse head.index second) rfl trivial) hdepth
  obtain ⟨ho, hs⟩ := hb.outcome_liesIn definitions levels first
  rw [outcome, Rule.run, run_eq_outcome levels head first, begin]
  generalize outcome definitions levels head first = x at hwalk ho hs ⊢
  obtain ⟨o, t⟩ := x
  cases o with
  | matched v j =>
      have hb' := hb.set ho.2 hs
      have hwalk' := hsecond _ _ (hb'.push (.together head.index) rfl trivial) hdepth
      obtain ⟨hp, ht⟩ := hb'.outcome_liesIn definitions levels second
      have hrun : second.run head.source head.depth
          (definitions.invoke head.source head.maxDepth levels) head.mode j t =
        outcome definitions levels { head with index := j, state := t } second := rfl
      dsimp only at hwalk' hp ht ⊢
      rw [hrun]
      generalize outcome definitions levels { head with index := j, state := t } second = y
        at hwalk' hp ht ⊢
      obtain ⟨p, u⟩ := y
      cases p with
      | matched w l => exact hwalk.append (hwalk'.concat (hb.set hp.2 ht))
      | failed f => exact hwalk.append (hwalk'.concat (hb.set hb.index_le ht))
      | aborted cause => exact hwalk.append (hwalk'.concat (hb.set hb.index_le ht))
  | failed f => exact (hwalk.concat (hb.answered ho hs)).mono (by omega)
  | aborted cause => exact (hwalk.concat (hb.answered ho hs)).mono (by omega)

theorem runs_orElse (hfirst : Parses definitions source limit levels first n)
    (hsecond : Parses definitions source limit levels second k) :
    Runs definitions source limit levels (.orElse first second) (n + k + 2) := by
  intro head frames hb hdepth
  apply Answers.of_walks
  have hwalk := hfirst head _ (hb.push (.otherwise second) rfl trivial) hdepth
  obtain ⟨ho, hs⟩ := hb.outcome_liesIn definitions levels first
  rw [outcome, Rule.run, run_eq_outcome levels head first, begin]
  generalize outcome definitions levels head first = x at hwalk ho hs ⊢
  obtain ⟨o, t⟩ := x
  cases o with
  | failed f =>
      have hb' := hb.set hb.index_le hs
      have hwalk' := hsecond _ _ (hb'.push (.deeper f) rfl trivial) hdepth
      obtain ⟨hp, ht⟩ := hb'.outcome_liesIn definitions levels second
      have hrun : second.run head.source head.depth
          (definitions.invoke head.source head.maxDepth levels) head.mode head.index t =
        outcome definitions levels { head with state := t } second := rfl
      dsimp only at hwalk' hp ht ⊢
      rw [hrun]
      generalize outcome definitions levels { head with state := t } second = y at hwalk' hp ht ⊢
      obtain ⟨p, u⟩ := y
      cases p with
      | matched w l => exact hwalk.append (hwalk'.concat (hb.set hp.2 ht))
      | failed g => exact hwalk.append (hwalk'.concat (hb.set hb.index_le ht))
      | aborted cause => exact hwalk.append (hwalk'.concat (hb.set hb.index_le ht))
  | matched v j => exact (hwalk.concat (hb.answered ho hs)).mono (by omega)
  | aborted cause => exact (hwalk.concat (hb.answered ho hs)).mono (by omega)

/-- A rule that does something with the outcome of its only part. -/
theorem Runs.of_part {inner : Head κ → Head κ} {frame : Head κ → Frame κ}
    (h : Parses definitions source limit levels part n)
    (hinner : ∀ head frames, InBounds source limit head frames →
      InBounds source limit (inner head) (frame head :: frames))
    (hdepth : ∀ head, (inner head).depth = head.depth)
    (hbegin : ∀ head frames, begin head frames definitions rule =
      ⟨.parse part, inner head, frame head :: frames⟩)
    (hanswer : ∀ head frames, step definitions (answered (inner head) (frame head :: frames)
        (outcome definitions levels (inner head) part)) =
      answered head frames (outcome definitions levels head rule)) :
    Runs definitions source limit levels rule (n + 1) := by
  intro head frames hb hd
  apply Answers.of_walks
  have hwalk := h _ _ (hinner head frames hb) ((congrArg (· + levels) (hdepth head)).trans hd)
  obtain ⟨ho, hs⟩ := hb.outcome_liesIn definitions levels rule
  have hgood := hb.answered ho hs
  rw [← hanswer] at hgood ⊢
  rw [hbegin]
  exact hwalk.concat hgood

theorem runs_optional (h : Parses definitions source limit levels part n) :
    Runs definitions source limit levels (.optional part) (n + 1) := by
  apply Runs.of_part h (fun head _ hb => hb.push (.optional head.index) rfl trivial)
    (fun _ => rfl) (fun _ _ => rfl)
  intro head frames
  rw [outcome, outcome, Rule.run]
  rcases part.run head.source head.depth _ head.mode head.index head.state with ⟨_ | _ | _, _⟩
  · rfl
  · simp [answered, step, resume, reach, Outcome.stop?]
  · rfl

theorem runs_ahead (h : Parses definitions source limit levels part n) :
    Runs definitions source limit levels (.ahead part) (n + 1) := by
  apply Runs.of_part h (fun head _ hb => hb.push (.ahead head.index) rfl trivial)
    (fun _ => rfl) (fun _ _ => rfl)
  intro head frames
  rw [outcome, outcome, Rule.run]
  rcases part.run head.source head.depth _ head.mode head.index head.state with ⟨_ | _ | _, _⟩ <;>
    rfl

theorem runs_endPoint (h : Parses definitions source limit levels part n) :
    Runs definitions source limit levels (.endPoint part) (n + 1) := by
  apply Runs.of_part h (fun head _ hb => hb.push .endPoint rfl trivial)
    (fun _ => rfl) (fun _ _ => rfl)
  intro head frames
  rw [outcome, outcome, Rule.run]
  rcases part.run head.source head.depth _ head.mode head.index head.state with ⟨_ | _ | _, _⟩ <;>
    rfl

theorem runs_traced (name : String) (h : Parses definitions source limit levels part n) :
    Runs definitions source limit levels (.traced name part) (n + 1) := by
  apply Runs.of_part h (fun head _ hb => hb.push
    (.traced name head.depth (head.source.offset head.index)) rfl trivial)
    (fun _ => rfl) (fun _ _ => rfl)
  intro head frames
  rw [outcome, outcome, Rule.run]
  rcases part.run head.source head.depth _ head.mode head.index head.state with ⟨_ | _ | _, _⟩ <;>
    rfl

theorem runs_newlines (count : Bool) (h : Parses definitions source limit levels part n) :
    Runs definitions source limit levels (.newlines count part) (n + 1) := by
  apply Runs.of_part h (fun head _ hb => (hb.setMode count head.quiet).push
    (.newlines head.newlines) rfl trivial) (fun _ => rfl) (fun _ _ => rfl)
  intro head frames
  rw [outcome, outcome, Rule.run]
  rfl

theorem runs_notAhead (h : Parses definitions source limit levels part n) :
    Runs definitions source limit levels (.notAhead part) (n + 1) := by
  apply Runs.of_part h (fun head _ hb => (hb.setMode head.newlines (head.quiet + 1)).push
    (.notAhead head.index) rfl trivial) (fun _ => rfl) (fun _ _ => rfl)
  intro head frames
  have hmode : ({ head with quiet := head.quiet + 1 } : Head κ).mode =
      { head.mode with quiet := true } := by
    simp [Head.mode]
  rw [outcome, outcome, Rule.run, hmode]
  dsimp only
  rcases part.run head.source head.depth _ _ head.index head.state with ⟨_ | _ | _, t⟩
  · dsimp only
    rw [answered_fail]
    rfl
  · rfl
  · rfl

theorem walks_repeated (h : Parses definitions source limit levels part n) (start rounds : Nat) :
    ∀ made head frames, InBounds source limit head frames → head.depth + levels = limit →
      -- every round but the last one moves on, so the rounds never overtake the head
      0 < made → start + made ≤ head.index + 1 →
      source.last < head.index + rounds →
      Walks definitions source limit (rounds * (n + 1))
        ⟨.parse part, head, .rounds start head.index made part :: frames⟩
        (answered { head with index := start } frames
          (head.source.repeated (part.run head.source head.depth
            (definitions.invoke head.source head.maxDepth levels)) head.mode start rounds head.index
            head.state)) := by
  induction rounds with
  | zero =>
      intro made head frames hb _ _ _ hrounds
      exact absurd hb.index_le (Nat.not_le.2 hrounds)
  | succ rounds ih =>
      intro made head frames hb hdepth hpos hmade hrounds
      have hi := hb.index_le
      have hstart : start ≤ source.last := by omega
      have hfits : (Frame.rounds start head.index made part).Fits source :=
        show made ≤ source.last - start + 1 by omega
      have hwalk := h _ _ (hb.push (.rounds start head.index made part) rfl hfits) hdepth
      obtain ⟨ho, hs⟩ := hb.outcome_liesIn definitions levels part
      rw [Source.repeated, run_eq_outcome levels head part, Nat.succ_mul]
      generalize outcome definitions levels head part = x at hwalk ho hs ⊢
      obtain ⟨o, t⟩ := x
      cases o with
      | matched v j =>
          have hb' := hb.set ho.2 hs
          by_cases hj : j = head.index
          · have hstep : step definitions (answered head
                (.rounds start head.index made part :: frames) (.matched v j, t)) =
                reach { head with index := j, state := t } frames start := if_pos hj
            simp only [hj, if_true] at hwalk hstep hb' ⊢
            have hreach := hwalk.concat (hstep ▸ hb')
            rw [hstep] at hreach
            exact hreach.mono (by omega)
          · have hstep : step definitions (answered head
                (.rounds start head.index made part :: frames) (.matched v j, t)) =
                ⟨.parse part, { head with index := j, state := t },
                  .rounds start j (made + 1) part :: frames⟩ := if_neg hj
            have hlt : head.index < j := Nat.lt_of_le_of_ne ho.1 (Ne.symm hj)
            have hrest := ih (made + 1) _ _ hb' hdepth (Nat.succ_pos made)
              (show start + (made + 1) ≤ j + 1 by omega)
              (show source.last < j + rounds by omega)
            simp only [hj, if_false]
            rw [← hstep] at hrest
            exact (hwalk.append hrest).mono (by omega)
      | failed f => exact (hwalk.concat (hb.set hb.index_le hs)).mono (by omega)
      | aborted cause => exact (hwalk.concat (hb.set hstart hs)).mono (by omega)

theorem runs_many (h : Parses definitions source limit levels part n) :
    Runs definitions source limit levels (.many part) (source.size * (n + 1)) := by
  intro head frames hb hdepth
  apply Answers.of_walks
  obtain rfl := hb.source_eq
  have hwalk := walks_repeated h head.index (head.source.last - head.index + 1) 1 head frames hb
    hdepth Nat.one_pos (Nat.le_refl _) (by omega)
  rw [outcome, Rule.run, begin]
  apply hwalk.mono
  apply Nat.mul_le_mul_right
  exact Nat.succ_le_succ (Nat.sub_le _ _)

theorem runs_ref (r : Nat) (hbody : ∀ body fewer, definitions.body? r = some body →
      levels = fewer + 1 → Runs definitions source limit fewer body n) :
    Runs definitions source limit levels (.ref r) (n + 2) := by
  intro head frames hb hdepth
  rw [outcome, Rule.run]
  apply Definitions.invoke_cases (P := Answers definitions source limit (n + 2)
    (begin head frames definitions (.ref r)) head frames)
  · intro o hmemo
    apply Answers.of_walks
    simp only [begin, hmemo]
    exact .refl (hb.set ((hb.liesIn _ o hmemo).index_le hb.index_le) hb.liesIn)
  · intro hmemo hnone
    apply Answers.of_walks
    simp only [begin, hmemo, hnone]
    exact .refl hb
  · rintro body hmemo hsome rfl
    apply Answers.of_walks
    have hle : head.maxDepth ≤ head.depth := by
      rw [hb.maxDepth_eq]
      exact Nat.le_of_eq hdepth.symm
    simp only [begin, hmemo, hsome, hle, if_true]
    exact (walks_fail hb _).mono (Nat.zero_le _)
  · rintro body fewer hmemo hsome rfl
    have hlt : head.depth < limit := by omega
    have hroom : ¬head.maxDepth ≤ head.depth := by
      rw [hb.maxDepth_eq]
      exact Nat.not_le.2 hlt
    have hlevel : head.maxDepth - fewer = head.depth + 1 := by
      rw [hb.maxDepth_eq]
      omega
    have hb' := hb.enter hlt ⟨definitions.scope, r, head.index, head.mode⟩
    obtain ⟨index, hindex, hwalk⟩ := hbody body fewer hsome rfl _ _ hb'
      (show head.depth + 1 + fewer = limit by omega)
    obtain ⟨ho, hs⟩ := hb'.outcome_liesIn definitions fewer body
    simp only [begin, hmemo, hsome, hroom, if_false, hlevel]
    refine ⟨index, hindex, .step hb' (hwalk.concat ?_)⟩
    exact hb.set hwalk.inBounds.index_le (hs.remember ho)

end

end Machine
end AnnotationScan.Peg
