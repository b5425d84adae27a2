import AnnotationScan.Proofs.Peg.Traits

/-!
# Where matches end and failures lie

A match ends, and a failure is seen, between the token where the rule was applied and the end marker.
This asks nothing of the definitions: the results in the memo may be those of other grammars, or of
recursive rules that have lost their bodies since, as long as they lie in the source themselves.
-/

namespace AnnotationScan.Peg

variable {κ σ : Type} {source : Source κ}

/-- The failure was seen at a token from `start` on, and its offset is that of the token. -/
structure Failure.LiesIn (source : Source κ) (start : Nat) (failure : Failure) : Prop where
  start_le : start ≤ failure.index
  le_last : failure.index ≤ source.last
  offset_eq : failure.offset = source.offset failure.index

/-- The match ends, or the failure was seen, at a token from `start` on.  `Lost` tells whether the
parse may have stopped at a reference without a definition. -/
def Outcome.LiesIn (source : Source κ) (Lost : Prop) (start : Nat) : Outcome → Prop
  | .matched _ stop => start ≤ stop ∧ stop ≤ source.last
  | .failed failure | .aborted (.fatal failure) => failure.LiesIn source start
  | .aborted (.undefinedRule _) => Lost

/-- All results in the memo lie in the source. -/
def State.LiesIn (source : Source κ) (state : State) : Prop :=
  ∀ (key : Application) (outcome : Outcome), state.memo[key]? = some outcome →
    outcome.LiesIn source False key.index

theorem Failure.LiesIn.mono {start i : Nat} {f : Failure} (h : f.LiesIn source i)
    (hle : start ≤ i) : f.LiesIn source start :=
  ⟨Nat.le_trans hle h.start_le, h.le_last, h.offset_eq⟩

namespace Outcome.LiesIn

variable {Lost : Prop} {start : Nat} {o : Outcome}

theorem imp {Lost' : Prop} (h : o.LiesIn source Lost start) (hlost : Lost → Lost') :
    o.LiesIn source Lost' start := by
  cases o with
  | matched v j => exact h
  | failed f => exact h
  | aborted cause =>
      cases cause with
      | fatal f => exact h
      | undefinedRule name => exact hlost h

theorem stop (h : o.LiesIn source Lost start) {j : Nat} (hj : o.stop? = some j) :
    start ≤ j ∧ j ≤ source.last := by
  cases o with
  | matched v k =>
      obtain rfl := Option.some.inj hj
      exact h
  | _ => cases hj

theorem failure (h : o.LiesIn source Lost start) {f : Failure} (hf : o.failure? = some f) :
    f.LiesIn source start := by
  cases o with
  | matched v k => cases hf
  | failed g =>
      obtain rfl := Option.some.inj hf
      exact h
  | aborted cause =>
      cases cause with
      | fatal g =>
          obtain rfl := Option.some.inj hf
          exact h
      | undefinedRule name => cases hf

theorem matched_or_failure (h : o.LiesIn source False start) :
    (∃ value stop, o = .matched value stop) ∨ ∃ failure, o.failure? = some failure := by
  cases o with
  | matched v j => exact .inl ⟨v, j, rfl⟩
  | failed f => exact .inr ⟨f, rfl⟩
  | aborted cause =>
      cases cause with
      | fatal f => exact .inr ⟨f, rfl⟩
      | undefinedRule name => exact h.elim

theorem index_le (h : o.LiesIn source Lost start) (hstart : start ≤ source.last) :
    o.stop?.getD start ≤ source.last := by
  cases hj : o.stop? with
  | none => exact hstart
  | some j => exact (h.stop hj).2

end Outcome.LiesIn

namespace State.LiesIn

variable {s : State}

theorem of_memo_eq {t : State} (h : s.LiesIn source) (hmemo : t.memo = s.memo) :
    t.LiesIn source := by
  intro key o ho
  exact h key o (hmemo ▸ ho)

theorem of_memo_empty (hmemo : s.memo = ∅) : s.LiesIn source := by
  intro key o ho
  simp [hmemo] at ho

theorem note (h : s.LiesIn source) (f : Failure) : (Ledger.note s f).LiesIn source :=
  h.of_memo_eq (s.memo_note f)

theorem observe (h : s.LiesIn source) (e : Event) : (Ledger.observe s e).LiesIn source :=
  h.of_memo_eq (s.memo_observe e)

theorem remember (h : s.LiesIn source) {Lost : Prop} {key : Application} {o : Outcome}
    (ho : o.LiesIn source Lost key.index) : (s.remember key o).LiesIn source := by
  intro key' o' ho'
  rcases State.recall_remember ho' with ⟨rfl, rfl, hd⟩ | hold
  · cases o with
    | aborted cause => cases hd
    | _ => exact ho
  · exact h key' o' hold

end State.LiesIn

/-- Wherever it is applied the matcher stays inside the source, and it keeps an invariant of the
ledger. -/
def Placed (source : Source κ) (Lost : Prop) (Inv : σ → Prop) (matcher : Matcher σ) : Prop :=
  ∀ mode i s, i ≤ source.last → Inv s →
    (matcher mode i s).1.LiesIn source Lost i ∧ Inv (matcher mode i s).2

variable {Lost : Prop} {Inv : σ → Prop}

/-- Lying in the source as a trait, which asks nothing of the value of a match. -/
def placement (source : Source κ) (Lost : Prop) : Trait where
  value _ _ _ := True
  failure start failure := failure.LiesIn source start
  lost := Lost

theorem Outcome.has_placement_iff {start : Nat} {o : Outcome} :
    o.Has source (placement source Lost) start ↔ o.LiesIn source Lost start := by
  cases o with
  | matched v j => exact ⟨fun h => ⟨h.1, h.2.1⟩, fun h => ⟨h.1, h.2, trivial⟩⟩
  | failed f => rfl
  | aborted cause => cases cause <;> rfl

theorem shows_placement_iff {matcher : Matcher σ} :
    Shows source (placement source Lost) Inv matcher ↔ Placed source Lost Inv matcher := by
  simp [Shows, Placed, Outcome.has_placement_iff]

theorem placement_allows (reason : Reason) : (placement source Lost).Allows source reason :=
  fun i hi => ⟨Nat.le_refl i, hi, rfl⟩

variable [Ledger σ]

theorem placement_passed (hnote : ∀ s f, Inv s → Inv (Ledger.note s f))
    (hobserve : ∀ s e, Inv s → Inv (Ledger.observe s e)) :
    (placement source Lost).Passed source Inv where
  spanFrom _ _ _ _ := trivial
  token _ _ := trivial
  earlier _ _ _ hij hf := Failure.LiesIn.mono hf hij
  note s _ f hs _ := hnote s f hs
  observe := hobserve

variable [DecidableEq κ] [Describe κ]

omit [DecidableEq κ] in
theorem Rule.upholds_placement (rule : Rule κ) : rule.Upholds source (placement source Lost) :=
  rule.upholds_of_allows placement_allows (.inr fun _ _ _ _ => trivial)

/-- A rule stays inside the source if the recursive rules do that it refers to. -/
theorem Rule.run_placed (hnote : ∀ s f, Inv s → Inv (Ledger.note s f))
    (hobserve : ∀ s e, Inv s → Inv (Ledger.observe s e)) {call : Nat → Matcher σ} (depth : Nat)
    (rule : Rule κ) (hcall : ∀ r, rule.RefersTo r → Placed source Lost Inv (call r)) :
    Placed source Lost Inv (rule.run source depth call) := by
  apply shows_placement_iff.1
  refine Rule.run_shows (placement_passed hnote hobserve) depth rule rule.upholds_placement ?_
  exact fun r hr => shows_placement_iff.2 (hcall r hr)

/-- What a parse keeps of a state: its results lie in the source, and events are recorded or not. -/
structure State.Sane (source : Source κ) (recorded : Bool) (state : State) : Prop where
  liesIn : state.LiesIn source
  log : state.log.isSome = recorded

namespace State.Sane

variable {recorded : Bool} {s : State}

omit [DecidableEq κ] [Describe κ] in
theorem note (h : s.Sane source recorded) (f : Failure) :
    (Ledger.note s f).Sane source recorded := by
  refine ⟨h.liesIn.note f, ?_⟩
  rw [← h.log]
  change (s.note f).log.isSome = s.log.isSome
  unfold State.note
  split
  · rfl
  · split <;> rfl

omit [DecidableEq κ] [Describe κ] in
theorem observe (h : s.Sane source recorded) (e : Event) :
    (Ledger.observe s e).Sane source recorded :=
  ⟨h.liesIn.observe e, Option.isSome_map.trans h.log⟩

omit [DecidableEq κ] [Describe κ] in
theorem remember (h : s.Sane source recorded) {key : Application} {o : Outcome}
    (ho : o.LiesIn source Lost key.index) : (s.remember key o).Sane source recorded := by
  refine ⟨h.liesIn.remember ho, ?_⟩
  rw [← h.log]
  cases o <;> rfl

end State.Sane

namespace Definitions

variable {definitions : Definitions κ} {recorded : Bool}

/-- Recursive rules stay inside the source.  They stop at a reference without a definition only if
there is one in the bodies of the rules that are known. -/
theorem invoke_placed (known : Nat → Prop)
    (hdefined : ∀ r, known r → definitions.body? r = none → Lost)
    (hclosed : ∀ r body, known r → definitions.body? r = some body →
      ∀ r', body.RefersTo r' → known r')
    (recorded : Bool) (limit levels : Nat) :
    ∀ r, known r → Placed source Lost (State.Sane source recorded)
      (definitions.invoke source limit levels r) := by
  induction levels using Nat.strongRecOn with
  | ind levels ih =>
      intro r hr mode i s hi hs
      apply invoke_cases (P := fun x => x.1.LiesIn source Lost i ∧ x.2.Sane source recorded)
      · exact fun o hmemo => ⟨(hs.liesIn _ o hmemo).imp False.elim, hs⟩
      · exact fun _ hbody => ⟨hdefined r hr hbody, hs⟩
      · intro body _ _ _
        obtain ⟨ho, ht⟩ := source.fail_shows
          (placement_passed (fun _ f hs => hs.note f) (fun _ e hs => hs.observe e))
          (placement_allows _) mode (Nat.le_refl i) hi hs
        exact ⟨Outcome.has_placement_iff.1 ho, ht⟩
      · rintro body fewer - hbody rfl
        obtain ⟨ho, ht⟩ := Rule.run_placed (fun _ f hs => hs.note f) (fun _ e hs => hs.observe e)
          (limit - fewer) body (fun r' hr' => ih fewer (Nat.lt_succ_self fewer) r'
            (hclosed r body hr hbody r' hr')) mode i s hi hs
        exact ⟨ho, ht.remember ho⟩

end Definitions

theorem Rule.run_invoke_placed (definitions : Definitions κ) (recorded : Bool)
    (limit levels depth : Nat) (rule : Rule κ) :
    Placed source True (State.Sane source recorded)
      (rule.run source depth (definitions.invoke source limit levels)) := by
  apply Rule.run_placed (fun _ f hs => hs.note f) (fun _ e hs => hs.observe e)
  intro r _
  exact Definitions.invoke_placed (fun _ => True) (fun _ _ _ => trivial)
    (fun _ _ _ _ _ _ => trivial) recorded limit levels r trivial

/-- If all references are defined the parse does not stop for want of a definition. -/
theorem Definitions.Closed.run_placed {definitions : Definitions κ} {known : Nat → Prop}
    (h : definitions.Closed known) (recorded : Bool) (limit levels depth : Nat) {rule : Rule κ}
    (hrule : ∀ r, rule.RefersTo r → known r) :
    Placed source False (State.Sane source recorded)
      (rule.run source depth (definitions.invoke source limit levels)) := by
  apply Rule.run_placed (fun _ f hs => hs.note f) (fun _ e hs => hs.observe e)
  intro r hr
  refine Definitions.invoke_placed known (fun r hr hnone => ?_) h.closed recorded limit levels r
    (hrule r hr)
  obtain ⟨body, hbody⟩ := h.defined r hr
  cases hnone.symm.trans hbody

/-- A cursor inside its source, whose memo lies in the source. -/
structure Cursor.Placed (cursor : Cursor κ) : Prop where
  index_le : cursor.index ≤ cursor.source.last
  liesIn : cursor.state.LiesIn cursor.source

theorem Cursor.Placed.parse {cursor : Cursor κ} (h : cursor.Placed) (definitions : Definitions κ)
    (rule : Rule κ) :
    let parsed := cursor.parse definitions rule
    parsed.1.LiesIn cursor.source True cursor.index ∧ parsed.2.Placed ∧
      parsed.2.state.log.isSome = cursor.state.log.isSome := by
  intro parsed
  obtain ⟨ho, hs⟩ := rule.run_invoke_placed definitions cursor.state.log.isSome cursor.maxDepth
    (cursor.maxDepth - cursor.depth) cursor.depth cursor.mode cursor.index cursor.state h.index_le
    ⟨h.liesIn, rfl⟩
  exact ⟨ho, ⟨ho.index_le h.index_le, hs.liesIn⟩, hs.log⟩

namespace Session

/-- The sessions over a source that steps of any sort lead to.  In between the recursive rules may
be exchanged for those of another grammar. -/
inductive Attained (source : Source κ) : Session κ → Prop
  | start (definitions : Definitions κ) (maxDepth : Nat) (log : Bool) :
      Attained source (.start source definitions maxDepth log)
  | take {session : Session κ} (h : Attained source session) (step : Step κ) :
      Attained source (session.take step).2
  | exchange {session : Session κ} (h : Attained source session) (definitions : Definitions κ) :
      Attained source { session with definitions }

/-- Whatever is done on a session, it stays inside the source with all its results. -/
theorem Attained.placed {session : Session κ} (h : Attained source session) :
    session.Inside source ∧ session.cursor.Placed := by
  induction h with
  | start definitions maxDepth log =>
      exact ⟨.start source definitions maxDepth log, Nat.zero_le _, .of_memo_empty rfl⟩
  | @take session h step ih =>
      obtain ⟨hinside, hplaced⟩ := ih
      rcases hinside.take step with ⟨rule, rfl⟩ | ⟨hnext, hmemo⟩
      · obtain ⟨-, hparsed, -⟩ := hplaced.parse session.definitions rule
        obtain ⟨⟨rfl, hdepth, hmode, -⟩, hsaved⟩ := hinside
        exact ⟨⟨⟨rfl, hdepth, hmode, hparsed.index_le⟩, hsaved⟩, hparsed⟩
      · have hsource := hnext.cursor.source_eq
        refine ⟨hnext, hsource ▸ hnext.cursor.index_le, ?_⟩
        have hlies := hplaced.liesIn
        rw [hsource]
        rw [hinside.cursor.source_eq] at hlies
        rcases hmemo with hmemo | hmemo
        · exact hlies.of_memo_eq hmemo
        · exact .of_memo_empty hmemo
  | exchange h definitions ih => exact ⟨⟨ih.1.cursor, ih.1.saved_le⟩, ih.2⟩

end Session
end AnnotationScan.Peg
