import AnnotationScan.Proofs.Peg.Placement

/-!
# Values are hulls

The value of a match is the span from the first token it takes to the last one, and a match of no
token has the point in front of the next token as value.  This holds of every rule without end
points, and of results from the memo as long as none of them is that of a recursive rule which had
an end point when it was computed.
-/

namespace AnnotationScan.Peg

variable {κ : Type} {source : Source κ}

/-- No token starts or ends before the one in front of it, and the end marker takes no bytes. -/
structure Source.Ordered (source : Source κ) : Prop where
  start_le : ∀ i, i < source.last →
    (source.lexeme i).span.start ≤ (source.lexeme (i + 1)).span.start
  stop_le : ∀ i, i < source.last →
    (source.lexeme i).span.stop ≤ (source.lexeme (i + 1)).span.stop
  marker : source.marker.span.start = source.marker.span.stop

/-- From the start of the first of some tokens to the end of the last one, or where the next token
starts if there are none. -/
def Source.hull (source : Source κ) (start stop : Nat) : Span :=
  if start < stop then ⟨(source.lexeme start).span.start, (source.lexeme (stop - 1)).span.stop⟩
  else Span.point (source.lexeme start).span.start

namespace Source.Ordered

variable {i j : Nat}

theorem le_of_le (h : source.Ordered) (hij : i ≤ j) (hj : j ≤ source.last) :
    (source.lexeme i).span.start ≤ (source.lexeme j).span.start ∧
      (source.lexeme i).span.stop ≤ (source.lexeme j).span.stop := by
  induction hij with
  | refl => exact ⟨Nat.le_refl _, Nat.le_refl _⟩
  | @step j hij ih =>
      obtain ⟨hstart, hstop⟩ := ih (Nat.le_of_succ_le hj)
      exact ⟨Nat.le_trans hstart (h.start_le j hj), Nat.le_trans hstop (h.stop_le j hj)⟩

theorem spanFrom_eq_hull (h : source.Ordered) (hij : i ≤ j) (hj : j ≤ source.last) :
    source.spanFrom i j = source.hull i j := by
  rcases Nat.eq_or_lt_of_le hij with rfl | hlt
  · rw [spanFrom_self, hull, if_neg (Nat.lt_irrefl i)]
    rfl
  · obtain ⟨hstart, hstop⟩ := h.le_of_le (Nat.le_sub_one_of_lt hlt) (by omega)
    rw [spanFrom, if_neg (Nat.not_le.2 hlt), hull, if_pos hlt, Span.merge, Nat.min_eq_left hstart,
      Nat.max_eq_right hstop]

end Source.Ordered

/-- The bodies of known recursive rules have no end points, and refer to known ones only. -/
structure Definitions.WithoutEndPoint (definitions : Definitions κ) (known : Nat → Prop) :
    Prop where
  body : ∀ r body, known r → definitions.body? r = some body → body.hasEndPoint = false
  closed : ∀ r body, known r → definitions.body? r = some body → ∀ r', body.RefersTo r' → known r'

def spanning (source : Source κ) : Trait where
  value start value stop := value = source.spanFrom start stop
  failure _ _ := True
  lost := True

theorem spanning_lawful (hmarker : source.marker.span.start = source.marker.span.stop) :
    (spanning source).Lawful source where
  spanFrom _ _ _ _ := rfl
  token i hi := by
    change _ = source.spanFrom i (source.next i)
    rcases Nat.eq_or_lt_of_le hi with rfl | hlt
    · -- the end marker is taken without being passed
      have hnext : source.next source.last = source.last := Nat.min_eq_right (Nat.le_succ _)
      rw [hnext, source.spanFrom_self, Source.offset, source.lexeme_of_last_le (Nat.le_refl _),
        Span.point, Span.mk.injEq]
      exact ⟨rfl, hmarker.symm⟩
    · have hnext : source.next i = i + 1 := Nat.min_eq_left hlt
      rw [hnext, Source.spanFrom, if_neg (by omega), Nat.add_sub_cancel, Span.merge_self]
  earlier _ _ _ _ _ := trivial

variable [Describe κ]

theorem Rule.upholds_spanning {condition : Prop} (rule : Rule κ)
    (h : condition → rule.hasEndPoint = false) :
    rule.Upholds source ((spanning source).whenever condition) := by
  refine rule.upholds_of_allows (fun _ _ _ => trivial) ?_
  by_cases hcondition : condition
  · exact .inl (h hcondition)
  · exact .inr fun _ _ _ _ hholds => absurd hholds hcondition

theorem Definitions.WithoutEndPoint.upholds {definitions : Definitions κ} {known : Nat → Prop}
    (h : definitions.WithoutEndPoint known) :
    definitions.Upholds source (spanning source) known where
  body r body hbody := body.upholds_spanning fun hr => h.body r body hr hbody
  closed := h.closed

namespace Session

variable [DecidableEq κ] {known : (scope rule : Nat) → Prop} {session : Session κ}

/-- The sessions over a source whose memo has no results from a time when a known recursive rule had
an end point: since the memo was last empty none of them had one when a rule was applied. -/
inductive Unmixed (source : Source κ) (known : (scope rule : Nat) → Prop) : Session κ → Prop
  | fresh {session : Session κ} (h : Attained source session)
      (hmemo : session.cursor.state.memo = ∅) : Unmixed source known session
  | take {session : Session κ} (h : Unmixed source known session) (step : Step κ)
      (hstep : ∀ rule, step = .parse rule →
        session.definitions.WithoutEndPoint (known session.definitions.scope)) :
      Unmixed source known (session.take step).2
  | exchange {session : Session κ} (h : Unmixed source known session)
      (definitions : Definitions κ) : Unmixed source known { session with definitions }

theorem Unmixed.attained (h : Unmixed source known session) : Attained source session := by
  induction h with
  | fresh h _ => exact h
  | take _ step _ ih => exact ih.take step
  | exchange _ definitions ih => exact ih.exchange definitions

/-- Nothing is stale where no body ever had an end point. -/
theorem Reachable.unmixed {definitions : Definitions κ} (h : Reachable source definitions session)
    (hdefinitions : definitions.WithoutEndPoint (known definitions.scope)) :
    Unmixed source known session := by
  induction h with
  | start maxDepth log => exact .fresh (.start definitions maxDepth log) rfl
  | take hreachable step hstep ih =>
      refine ih.take step fun _ _ => ?_
      rw [hreachable.atRest.definitions_eq]
      exact hdefinitions

theorem parse_spanning (hmarker : source.marker.span.start = source.marker.span.stop)
    (hinside : session.Inside source)
    (hstate : session.cursor.state.Keeps source (spanning source) known)
    (hdefinitions : session.definitions.WithoutEndPoint (known session.definitions.scope))
    {P : Prop} (rule : Rule κ) (hrule : P → rule.hasEndPoint = false)
    (hrefers : P → ∀ r, rule.RefersTo r → known session.definitions.scope r) :
    let parsed := session.cursor.parse session.definitions rule
    parsed.1.Has source ((spanning source).whenever P) session.cursor.index ∧
      parsed.2.state.Keeps source (spanning source) known := by
  obtain ⟨⟨rfl, -, -, hindex⟩, -⟩ := hinside
  exact Cursor.parse_shows (spanning_lawful hmarker) trivial (fun _ _ => trivial) hindex hstate
    hdefinitions.upholds (rule.upholds_spanning hrule) hrefers

theorem Unmixed.keeps (hmarker : source.marker.span.start = source.marker.span.stop)
    (h : Unmixed source known session) :
    session.cursor.state.Keeps source (spanning source) known := by
  have hempty : ∀ s : State, s.memo = ∅ → s.Keeps source (spanning source) known :=
    fun s hmemo => ⟨fun key o ho => by simp [hmemo] at ho, fun _ _ => ⟨0, trivial⟩⟩
  induction h with
  | fresh h hmemo => exact hempty _ hmemo
  | @take session h step hstep ih =>
      have hinside := h.attained.placed.1
      rcases hinside.take step with ⟨rule, rfl⟩ | ⟨-, hmemo | hmemo⟩
      -- nothing is known of the rule itself, but only the bodies behind it get into the memo
      · obtain ⟨-, hparsed⟩ := parse_spanning (P := False) hmarker hinside ih (hstep rule rfl) rule
          False.elim False.elim
        exact hparsed
      · exact ⟨fun key o ho => ih.memo key o (hmemo ▸ ho), fun _ _ => ⟨0, trivial⟩⟩
      · exact hempty _ hmemo
  | exchange _ _ ih => exact ih

/-- What a rule without end points matches has the hull of the tokens taken as value, be it computed
or recalled. -/
theorem parse_value_eq_hull (hsource : source.Ordered) (h : Unmixed source known session)
    (hdefinitions : session.definitions.WithoutEndPoint (known session.definitions.scope))
    (rule : Rule κ) (hrule : rule.hasEndPoint = false)
    (hrefers : ∀ r, rule.RefersTo r → known session.definitions.scope r) (value : Span)
    (stop : Nat) :
    let parsed := session.cursor.parse session.definitions rule
    parsed.1 = .matched value stop →
      parsed.2.index = stop ∧ session.cursor.index ≤ stop ∧
        value = source.hull session.cursor.index stop := by
  intro parsed hmatch
  have hinside := h.attained.placed.1
  obtain ⟨hparsed, -⟩ := parse_spanning (P := True) hsource.marker hinside
    (h.keeps hsource.marker) hdefinitions rule (fun _ => hrule) (fun _ => hrefers)
  change parsed.1.Has _ _ _ at hparsed
  rw [hmatch] at hparsed
  obtain ⟨hle, hlast, hvalue⟩ := hparsed
  refine ⟨congrArg (·.stop?.getD session.cursor.index) hmatch, hle, ?_⟩
  exact (hvalue trivial).trans (hsource.spanFrom_eq_hull hle hlast)

/-- Brackets inside one another, and the end of such brackets. -/
def bracketsAndEnd : Definitions Char where
  scope := 0
  entries := brackets.entries.push ⟨"end", some (.endPoint (.ref 0))⟩

/-- Brackets are recalled with their hull after a rule with an end point was applied, even if the
bodies of the rules have been dropped. -/
theorem parse_value_eq_hull_recalled :
    let source := Source.ofWords "(())"
    let session := ((((Session.start source bracketsAndEnd 4 false).take (.parse (.ref 1))).2.take
      (.restore "start")).2.take .dropDefinitions).2
    (session.cursor.parse session.definitions (.ref 0)).1 = .matched ⟨0, 4⟩ 4 ∧
      ⟨0, 4⟩ = source.hull 0 4 := by
  intro source session
  have hlast : source.last = 4 := by decide +kernel
  have hsource : source.Ordered := by
    have hordered : ∀ i : Fin 4,
        (source.lexeme i).span.start ≤ (source.lexeme (i + 1)).span.start ∧
          (source.lexeme i).span.stop ≤ (source.lexeme (i + 1)).span.stop := by decide +kernel
    exact ⟨fun i hi => (hordered ⟨i, hlast ▸ hi⟩).1, fun i hi => (hordered ⟨i, hlast ▸ hi⟩).2, rfl⟩
  let known (_ rule : Nat) : Prop := rule = 0
  have hbrackets : bracketsAndEnd.WithoutEndPoint (known 0) := by
    constructor
    · rintro r body rfl hbody
      obtain rfl := Option.some.inj hbody
      rfl
    · rintro r body rfl hbody r' hr'
      obtain rfl := Option.some.inj hbody
      simpa [Rule.RefersTo, Rule.wrapped, Rule.seq, known, eq_comm] using hr'
  have hdropped : bracketsAndEnd.dropped.WithoutEndPoint (known 0) := by
    have hnone : bracketsAndEnd.dropped.body? 0 = none := by decide +kernel
    constructor <;> rintro r body rfl hbody <;> cases hnone.symm.trans hbody
  have h : Unmixed source known session := by
    refine .take (.take (.take (.fresh (.start bracketsAndEnd 4 false) rfl) (.parse (.ref 1)) ?_)
      (.restore "start") nofun) .dropDefinitions nofun
    exact fun _ _ => hbrackets
  have hmatch : (session.cursor.parse session.definitions (.ref 0)).1 = .matched ⟨0, 4⟩ 4 := by
    decide +kernel
  have hindex : session.cursor.index = 0 := by decide +kernel
  obtain ⟨-, -, hvalue⟩ := parse_value_eq_hull hsource h hdropped (.ref 0) rfl
    (fun _ hr => hr.symm) ⟨0, 4⟩ 4 hmatch
  exact ⟨hmatch, hindex ▸ hvalue⟩

end Session
end AnnotationScan.Peg
