import AnnotationScan.Peg.Session
import AnnotationScan.Peg.Words
import AnnotationScan.Proofs.Peg.Adequacy

/-!
# Reachable sessions

Whatever is done on a session, as long as its recursive rules keep their bodies, the cursor stays
inside the source at the outermost level and its memo stays true.  So a parse there answers as one
without a memo that starts afresh at the same token.
-/

namespace AnnotationScan.Peg

variable {κ : Type} [DecidableEq κ] [Describe κ] {source : Source κ} {definitions : Definitions κ}

/-- A cursor between parses: inside the source and at the outermost level, whatever was learnt. -/
structure Cursor.Outermost (source : Source κ) (cursor : Cursor κ) : Prop where
  source_eq : cursor.source = source
  depth_eq : cursor.depth = 0
  mode_eq : cursor.mode = {}
  index_le : cursor.index ≤ source.last

/-- A cursor between parses with a true memo. -/
structure Cursor.AtRest (source : Source κ) (definitions : Definitions κ) (cursor : Cursor κ) :
    Prop extends cursor.Outermost source where
  truthful : cursor.state.Truthful source definitions

namespace Cursor.AtRest

variable {cursor : Cursor κ}

theorem parse_eq (h : cursor.AtRest source definitions) (rule : Rule κ) :
    cursor.parse definitions rule =
      let x := rule.run source 0 (definitions.invoke source cursor.maxDepth cursor.maxDepth) {}
        cursor.index cursor.state
      (x.1, { cursor with index := x.1.stop?.getD cursor.index, state := x.2 }) := by
  obtain ⟨source', index, depth, maxDepth, mode, state⟩ := cursor
  obtain ⟨⟨rfl, rfl, rfl, -⟩, -⟩ := h
  rfl

theorem parse_explained (h : cursor.AtRest source definitions) (rule : Rule κ) :
    Explained source definitions rule true cursor.index (cursor.parse definitions rule).1 := by
  rw [h.parse_eq]
  exact (rule.run_invoke_sound source definitions cursor.maxDepth cursor.maxDepth 0 {}
    cursor.index cursor.state h.index_le h.truthful).2

theorem parse (h : cursor.AtRest source definitions) (rule : Rule κ) :
    (cursor.parse definitions rule).2.AtRest source definitions := by
  rw [h.parse_eq]
  have hsound := rule.run_invoke_sound source definitions cursor.maxDepth cursor.maxDepth 0 {}
    cursor.index cursor.state h.index_le h.truthful
  generalize rule.run source 0 _ {} cursor.index cursor.state = x at hsound ⊢
  obtain ⟨o, s⟩ := x
  obtain ⟨hs, he⟩ := hsound
  refine ⟨⟨h.source_eq, h.depth_eq, h.mode_eq, ?_⟩, hs⟩
  cases ho : o.stop? with
  | none => simpa [ho] using h.index_le
  | some j => simpa [ho] using (he.bounds h.index_le j ho).2

/-- A parse from a cursor at rest and one without a memo, started afresh at the same token, have the
same outcome as soon as the latter has room enough, or if it has as much room as the former. -/
theorem parse_eq_plain (h : cursor.AtRest source definitions) (rule : Rule κ) :
    let parsed := cursor.parse definitions rule
    let plain (limit : Nat) :=
      (Cursor.fresh source limit cursor.index).parsePlainly definitions rule
    (parsed.1.isDecided = true → ∃ enough, ∀ limit, enough ≤ limit →
      (plain limit).1 = parsed.1 ∧ (plain limit).2.index = parsed.2.index) ∧
    ((plain cursor.maxDepth).1.isDecided = true →
      parsed.1 = (plain cursor.maxDepth).1 ∧ parsed.2.index = (plain cursor.maxDepth).2.index) ∧
    ∀ failure, parsed.1 = .aborted (.fatal failure) ∨
      (plain cursor.maxDepth).1 = .aborted (.fatal failure) →
        ∃ limit, failure.reason = .depthLimit limit := by
  have hi := h.index_le
  have hplain := fun limit =>
    Cursor.parsePlainly_fresh definitions rule limit hi
  dsimp only
  rw [h.parse_eq]
  simp only [hplain]
  obtain ⟨-, hexplained⟩ := rule.run_invoke_sound source definitions cursor.maxDepth
    cursor.maxDepth 0 {} cursor.index cursor.state hi h.truthful
  refine ⟨fun hd => ?_, fun hd => ?_, ?_⟩
  · obtain ⟨nesting, hderives⟩ := hexplained.derives hd
    refine ⟨nesting, fun limit hlimit => ?_⟩
    have ho := hderives.run_expand hi limit limit 0 hlimit {} rfl ({} : State)
    rw [ho]
    exact ⟨rfl, rfl⟩
  · have hsame := (Memoizes.of_truthful (σ := State)).run_inStep cursor.maxDepth cursor.maxDepth 0 0
      rule {} hi h.truthful hd
    rw [hsame.1]
    exact ⟨rfl, rfl⟩
  · rintro f (hf | hf)
    · rw [hf] at hexplained
      exact Abort.Genuine.eq_depthLimit hexplained
    · have hexplained := rule.run_expand_explained source definitions cursor.maxDepth
        cursor.maxDepth 0 {} hi ({} : State)
      rw [hf] at hexplained
      exact Abort.Genuine.eq_depthLimit hexplained

end Cursor.AtRest

namespace Session

/-- Every step but one leaves the bodies of the recursive rules alone. -/
def Step.KeepsDefinitions : Step κ → Prop
  | .dropDefinitions => False
  | _ => True

/-- The sessions over a source and some recursive rules that steps lead to. -/
inductive Reachable (source : Source κ) (definitions : Definitions κ) : Session κ → Prop
  | start (maxDepth : Nat) (log : Bool) :
      Reachable source definitions (.start source definitions maxDepth log)
  | take {session : Session κ} (h : Reachable source definitions session) (step : Step κ)
      (hstep : step.KeepsDefinitions) : Reachable source definitions (session.take step).2

/-- A session between steps: the cursor is at the outermost level, and all places are inside the
source. -/
structure Inside (source : Source κ) (session : Session κ) : Prop where
  cursor : session.cursor.Outermost source
  saved_le : ∀ place ∈ session.saved, place.2 ≤ source.last

namespace Inside

variable {session : Session κ}

omit [DecidableEq κ] [Describe κ] in
theorem start (source : Source κ) (definitions : Definitions κ) (maxDepth : Nat) (log : Bool) :
    (Session.start source definitions maxDepth log).Inside source := by
  refine ⟨⟨rfl, rfl, rfl, Nat.zero_le _⟩, ?_⟩
  simp [Session.start]

omit [DecidableEq κ] [Describe κ] in
theorem place_le (h : session.Inside source) {name : String} {index : Nat}
    (hplace : session.place? name = some index) : index ≤ source.last := by
  obtain ⟨before, after, hsaved, -⟩ := List.lookup_eq_some_iff.1 hplace
  exact h.saved_le (name, index) (by simp [hsaved])

omit [DecidableEq κ] [Describe κ] in
theorem withIndex (h : session.Inside source) {index : Nat} (hi : index ≤ source.last) :
    (session.withCursor { session.cursor with index }).Inside source :=
  ⟨⟨h.cursor.source_eq, h.cursor.depth_eq, h.cursor.mode_eq, hi⟩, h.saved_le⟩

omit [DecidableEq κ] [Describe κ] in
theorem withState (h : session.Inside source) (maxDepth : Nat) (state : State) :
    (session.withCursor { session.cursor with maxDepth, state }).Inside source :=
  ⟨⟨h.cursor.source_eq, h.cursor.depth_eq, h.cursor.mode_eq, h.cursor.index_le⟩, h.saved_le⟩

theorem take (h : session.Inside source) (step : Step κ) :
    (∃ rule, step = .parse rule) ∨
      (session.take step).2.Inside source ∧
        ((session.take step).2.cursor.state.memo = session.cursor.state.memo ∨
          (session.take step).2.cursor.state.memo = ∅) := by
  cases step with
  | advance =>
      refine .inr ⟨h.withIndex ?_, .inl rfl⟩
      rw [h.cursor.source_eq]
      exact source.next_le_last _
  | save name =>
      refine .inr ⟨⟨h.cursor, ?_⟩, .inl rfl⟩
      rintro place (_ | ⟨_, hplace⟩)
      · exact h.cursor.index_le
      · exact h.saved_le place hplace
  | restore name =>
      rw [Session.take]
      cases hplace : session.place? name with
      | none => exact .inr ⟨h, .inl rfl⟩
      | some index => exact .inr ⟨h.withIndex (h.place_le hplace), .inl rfl⟩
  | spanFrom name =>
      rw [Session.take]
      cases session.place? name <;> exact .inr ⟨h, .inl rfl⟩
  | moveTo index =>
      refine .inr ⟨h.withIndex ?_, .inl rfl⟩
      rw [h.cursor.source_eq]
      exact Nat.min_le_right _ _
  | fail reason =>
      have hnote : ∀ (s : State) (f : Failure), s.memo = session.cursor.state.memo →
          (Ledger.note s f).memo = session.cursor.state.memo :=
        fun s f hs => (s.memo_note f).trans hs
      exact .inr ⟨h.withState _ _, .inl (Source.fail_inv hnote _ reason _ _ rfl)⟩
  | maxDepth limit => exact .inr ⟨h.withState limit _, .inl rfl⟩
  | traceLog | drainLog | forgetFailure => exact .inr ⟨h.withState _ _, .inl rfl⟩
  | forgetResults => exact .inr ⟨h.withState _ _, .inr rfl⟩
  | furthest => exact .inr ⟨h, .inl rfl⟩
  | dropDefinitions => exact .inr ⟨⟨h.cursor, h.saved_le⟩, .inl rfl⟩
  | parse rule => exact .inl ⟨rule, rfl⟩

end Inside

theorem take_definitions {session : Session κ} {step : Step κ} (hstep : step.KeepsDefinitions) :
    (session.take step).2.definitions = session.definitions := by
  cases step with
  | restore name | spanFrom name =>
      rw [Session.take]
      cases session.place? name <;> rfl
  | dropDefinitions => exact hstep.elim
  | _ => rfl

/-- A session between steps: its cursor is at rest, and all saved places are inside the source. -/
structure AtRest (source : Source κ) (definitions : Definitions κ) (session : Session κ) :
    Prop where
  definitions_eq : session.definitions = definitions
  cursor : session.cursor.AtRest source definitions
  saved_le : ∀ place ∈ session.saved, place.2 ≤ source.last

theorem AtRest.take {session : Session κ} (h : session.AtRest source definitions) {step : Step κ}
    (hstep : step.KeepsDefinitions) : (session.take step).2.AtRest source definitions := by
  obtain ⟨rfl, hcursor, hsaved⟩ := h
  have hinside : session.Inside source := ⟨hcursor.toOutermost, hsaved⟩
  rcases hinside.take step with ⟨rule, rfl⟩ | ⟨hnext, hmemo⟩
  · exact ⟨rfl, hcursor.parse rule, hsaved⟩
  · refine ⟨take_definitions hstep, ⟨hnext.cursor, ?_⟩, hnext.saved_le⟩
    rcases hmemo with hmemo | hmemo
    · exact hcursor.truthful.of_memo_eq hmemo
    · exact State.truthful_of_memo_empty hmemo

theorem Reachable.atRest {session : Session κ} (h : Reachable source definitions session) :
    session.AtRest source definitions := by
  induction h with
  | start maxDepth log =>
      have hinside := Inside.start source definitions maxDepth log
      exact ⟨rfl, ⟨hinside.cursor, State.truthful_of_memo_empty rfl⟩, hinside.saved_le⟩
  | take h step hstep ih => exact ih.take hstep

/-- Memoization is transparent in every reachable session. -/
theorem parse_transparent {session : Session κ}
    (h : Reachable source definitions session) (rule : Rule κ) :
    let cursor := session.cursor
    let parsed := cursor.parse session.definitions rule
    let plain (limit : Nat) :=
      (Cursor.fresh source limit cursor.index).parsePlainly definitions rule
    (parsed.1.isDecided = true → ∃ enough, ∀ limit, enough ≤ limit →
      (plain limit).1 = parsed.1 ∧ (plain limit).2.index = parsed.2.index) ∧
    ((plain cursor.maxDepth).1.isDecided = true →
      parsed.1 = (plain cursor.maxDepth).1 ∧ parsed.2.index = (plain cursor.maxDepth).2.index) ∧
    ∀ failure, parsed.1 = .aborted (.fatal failure) ∨
      (plain cursor.maxDepth).1 = .aborted (.fatal failure) →
        ∃ limit, failure.reason = .depthLimit limit := by
  have hrest := h.atRest
  dsimp only
  rw [hrest.definitions_eq]
  exact hrest.cursor.parse_eq_plain rule

def brackets : Definitions Char where
  scope := 0
  entries := #[⟨"brackets", some (.wrapped (.token '(') (.optional (.ref 0)) (.token ')'))⟩]

/-- Brackets are recalled under a limit that leaves no room to find them afresh. -/
theorem parse_transparent_brackets :
    let source := Source.ofWords "(())"
    let session := ((((Session.start source brackets 3 false).take (.parse (.ref 0))).2.take
      (.restore "start")).2.take (.maxDepth 1)).2
    (session.cursor.parse session.definitions (.ref 0)).1 = .matched ⟨0, 4⟩ 4 ∧
      ∃ enough, ∀ limit, enough ≤ limit →
        ((Cursor.fresh source limit 0).parsePlainly brackets (.ref 0)).1 = .matched ⟨0, 4⟩ 4 := by
  intro source session
  have h : Reachable source brackets session :=
    (((Reachable.start 3 false).take (.parse (.ref 0)) trivial).take (.restore "start") trivial).take
      (.maxDepth 1) trivial
  have ho : (session.cursor.parse session.definitions (.ref 0)).1 = .matched ⟨0, 4⟩ 4 := by
    decide +kernel
  obtain ⟨enough, henough⟩ := (parse_transparent h (.ref 0)).1 (by rw [ho]; rfl)
  exact ⟨ho, enough, fun limit hlimit => (henough limit hlimit).1.trans ho⟩

end Session
end AnnotationScan.Peg
