import AnnotationScan.Proofs.Peg.Termination

/-!
# Backtracking leaves nothing behind

After a rule the head of the cursor is behind the match, or where the rule started.  Everything else
about it is as it was: the nesting, the modes, the limit and the source.  This holds for every rule
that is applied on the way, inside of lookahead and repetition, and also where a failure ends the
parse.
-/

namespace AnnotationScan.Peg

variable {κ : Type}

/-- A rule with an outcome has taken one head to another one and has left nothing else behind. -/
structure Head.Restored (head : Head κ) (outcome : Outcome) (head' : Head κ) : Prop where
  source_eq : head'.source = head.source
  depth_eq : head'.depth = head.depth
  maxDepth_eq : head'.maxDepth = head.maxDepth
  newlines_eq : head'.newlines = head.newlines
  quiet_eq : head'.quiet = head.quiet
  /-- The head of a rule that matches is behind the match, in the source. -/
  matched : ∀ value stop, outcome = .matched value stop →
    head'.index = stop ∧ head.index ≤ stop ∧ stop ≤ head.source.last
  /-- The head of a rule that fails is where the rule started, and the failure is not before. -/
  failed : ∀ failure, outcome.failure? = some failure →
    head'.index = head.index ∧ failure.LiesIn head.source head.index

variable [DecidableEq κ] [Describe κ] {source : Source κ} {session : Session κ}

theorem Outcome.stop?_eq_none {o : Outcome} {f : Failure} (h : o.failure? = some f) :
    o.stop? = none := by
  cases o with
  | matched v j => cases h
  | _ => rfl

theorem Head.restored {head : Head κ} (h : head.cursor.Placed) (definitions : Definitions κ)
    (rule : Rule κ) :
    let parsed := head.cursor.parse definitions rule
    head.Restored parsed.1 (head.follow parsed.2) := by
  intro parsed
  obtain ⟨hlies, -, -⟩ := h.parse definitions rule
  have hindex : (head.follow parsed.2).index = parsed.1.stop?.getD head.index := rfl
  refine ⟨rfl, rfl, rfl, rfl, rfl, fun value stop hmatched => ?_, fun failure hfailed => ?_⟩
  · have hstop : parsed.1.stop? = some stop := congrArg Outcome.stop? hmatched
    rw [hindex, hstop]
    exact ⟨rfl, hlies.stop hstop⟩
  · rw [hindex, Outcome.stop?_eq_none hfailed]
    exact ⟨rfl, hlies.failure hfailed⟩

namespace Session

/-- The parse of a rule, and of every rule that is applied on the way, leaves nothing behind on the
head but the place behind its match. -/
theorem parse_restores (h : Attained source session) (rule : Rule κ) :
    let cursor := session.cursor
    let parsed := cursor.parse session.definitions rule
    let machine := (Machine.start rule cursor).after session.definitions
    (Head.ofCursor cursor).Restored parsed.1 (.ofCursor parsed.2) ∧
    ∀ n part head frames, machine n = ⟨.parse part, head, frames⟩ →
      let inner := head.cursor.parse session.definitions part
      ∃ k head', machine (n + k) = ⟨.answer inner.1, head', frames⟩ ∧ head'.cursor = inner.2 ∧
        head.Restored inner.1 head' := by
  intro cursor parsed machine
  constructor
  · have hplaced : (Head.ofCursor cursor).cursor.Placed := by
      rw [Head.cursor_ofCursor]
      exact h.placed.2
    have hrestored := Head.restored hplaced session.definitions rule
    rw [Head.cursor_ofCursor] at hrestored
    exact hrestored
  · intro n part head frames hn inner
    obtain ⟨-, -, -, hbounds⟩ := h.machine rule
    have hb : Machine.InBounds source cursor.maxDepth head frames := by
      have hbound : Machine.InBounds _ _ (machine n).head (machine n).frames := hbounds n
      rwa [hn] at hbound
    have hplaced : head.cursor.Placed := by
      obtain rfl := hb.source_eq
      exact ⟨hb.index_le, hb.liesIn⟩
    have hwalk := Machine.parses session.definitions source cursor.maxDepth
      (cursor.maxDepth - head.depth) part head frames hb (Nat.add_sub_cancel' hb.depth_le)
    obtain ⟨k, -, hend, -⟩ := hwalk.after
    rw [← hb.maxDepth_eq, Machine.answered_outcome] at hend
    refine ⟨k, head.follow inner.2, ?_, rfl, Head.restored hplaced session.definitions part⟩
    change (Machine.start rule cursor).after session.definitions (n + k) = _
    rw [Machine.after_add]
    change (machine n).after session.definitions k = _
    rw [hn]
    exact hend

/-- Inside of a lookahead a word is taken before the failure behind the next one. -/
theorem parse_restores_lookahead :
    let session := ((Session.start (Source.ofWords "a b") brackets 3 false).take (.moveTo 0)).2
    let part : Rule Char := .andThen .any (.failNext (.expected "c"))
    let machine := (Machine.start (.notAhead part) session.cursor).after session.definitions
    ∃ head frames, machine 2 = ⟨.parse part, head, frames⟩ ∧ head.quiet = 1 ∧
      ∃ k head', machine (2 + k) = ⟨.answer (.failed ⟨.expected "c", 2, 3⟩), head', frames⟩ ∧
        head'.index = 0 ∧ head'.quiet = 1 := by
  intro session part machine
  have hsession : Attained (Source.ofWords "a b") session := (Attained.start brackets 3 false).take _
  let head : Head Char := { Head.ofCursor session.cursor with quiet := 1 }
  obtain ⟨k, head', hanswer, -, hrestored⟩ := (parse_restores hsession (.notAhead part)).2 2 part head
    [.notAhead 0, .goBack 0] rfl
  have ho : (head.cursor.parse session.definitions part).1 = .failed ⟨.expected "c", 2, 3⟩ := by
    decide +kernel
  rw [ho] at hanswer hrestored
  refine ⟨head, _, rfl, rfl, k, head', hanswer, ?_, hrestored.quiet_eq⟩
  exact (hrestored.failed _ rfl).1

end Session
end AnnotationScan.Peg
