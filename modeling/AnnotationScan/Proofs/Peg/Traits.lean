import AnnotationScan.Proofs.Peg.Closed

/-!
# Traits of outcomes

A trait is what all matches of a rule have in common, and all failures it meets.  It passes from the
parts of a rule to the rule if it holds of the span of the tokens that were taken, of the tokens
themselves, and of the failures that the operators of the rule add.  A result in the memo has the
trait of what was computed, since only computed results get there.
-/

namespace AnnotationScan.Peg

/-- What holds of the value of a match between two tokens and of a failure seen from a token on, and
whether a parse may stop at a reference without a definition. -/
structure Trait where
  value : (start : Nat) → Span → (stop : Nat) → Prop
  failure : (start : Nat) → Failure → Prop
  lost : Prop

variable {κ σ : Type} {source : Source κ} {trait : Trait}

/-- The match ends inside the source and its value has the trait, or the failure has it. -/
def Outcome.Has (source : Source κ) (trait : Trait) (start : Nat) : Outcome → Prop
  | .matched value stop => start ≤ stop ∧ stop ≤ source.last ∧ trait.value start value stop
  | .failed failure | .aborted (.fatal failure) => trait.failure start failure
  | .aborted (.undefinedRule _) => trait.lost

/-- Wherever it is applied the matcher gives outcomes with the trait, and it keeps an invariant of
the ledger. -/
def Shows (source : Source κ) (trait : Trait) (Inv : σ → Prop) (matcher : Matcher σ) : Prop :=
  ∀ mode i s, i ≤ source.last → Inv s →
    (matcher mode i s).1.Has source trait i ∧ Inv (matcher mode i s).2

/-- The trait is kept when outcomes are put together. -/
structure Trait.Lawful (source : Source κ) (trait : Trait) : Prop where
  spanFrom : ∀ i j, i ≤ j → j ≤ source.last → trait.value i (source.spanFrom i j) j
  token : ∀ i, i ≤ source.last → trait.value i (source.lexeme i).span (source.next i)
  earlier : ∀ i j f, i ≤ j → trait.failure j f → trait.failure i f

/-- The invariant is kept when failures with the trait and events are added to the ledger. -/
structure Trait.Passed [Ledger σ] (source : Source κ) (trait : Trait) (Inv : σ → Prop) : Prop
    extends trait.Lawful source where
  note : ∀ s i f, Inv s → trait.failure i f → Inv (Ledger.note s f)
  observe : ∀ s e, Inv s → Inv (Ledger.observe s e)

/-- A failure may have the reason, wherever it is seen. -/
def Trait.Allows (source : Source κ) (trait : Trait) (reason : Reason) : Prop :=
  ∀ i, i ≤ source.last → trait.failure i (source.failureAt reason i)

/-- What the operators of a rule add to the outcomes of their parts has the trait. -/
def Rule.Upholds [Describe κ] (source : Source κ) (trait : Trait) : Rule κ → Prop
  | .token kind => trait.Allows source (.expected (Describe.describe kind))
  | .word => trait.Allows source (.expected "identifier")
  | .keyword text => trait.Allows source (.expected ("`" ++ text ++ "`"))
  | .lineBreak => trait.Allows source (.expected "line break")
  | .fail reason | .failNext reason => trait.Allows source reason
  | .nothing | .any | .ref _ => True
  | .andThen first second | .orElse first second =>
    first.Upholds source trait ∧ second.Upholds source trait
  | .optional part | .many part | .ahead part | .newlines _ part | .traced _ part =>
    part.Upholds source trait
  | .notAhead part =>
    part.Upholds source trait ∧
      ∀ kind : κ, trait.Allows source (.unexpected (Describe.describe kind))
  | .endPoint part =>
    part.Upholds source trait ∧
      ∀ i v j, trait.value i v j → trait.value i (Span.point v.stop) j

def Rule.hasEndPoint : Rule κ → Bool
  | .endPoint _ => true
  | .andThen first second | .orElse first second => first.hasEndPoint || second.hasEndPoint
  | .optional part | .many part | .ahead part | .notAhead part | .newlines _ part
  | .traced _ part => part.hasEndPoint
  | .token _ | .word | .keyword _ | .nothing | .lineBreak | .fail _ | .any | .failNext _
  | .ref _ => false

/-- A rule upholds a trait that all failures have if it has no end points or these keep it. -/
theorem Rule.upholds_of_allows [Describe κ] (rule : Rule κ)
    (hallows : ∀ reason, trait.Allows source reason)
    (hpoint : rule.hasEndPoint = false ∨
      ∀ i v j, trait.value i v j → trait.value i (Span.point v.stop) j) :
    rule.Upholds source trait := by
  induction rule with
  | token _ | word | keyword _ | lineBreak | fail _ | failNext _ => exact hallows _
  | nothing | any | ref _ => trivial
  | andThen _ _ ihfirst ihsecond | orElse _ _ ihfirst ihsecond =>
      have hpoint := hpoint.imp_left Bool.or_eq_false_iff.1
      exact ⟨ihfirst (hpoint.imp_left And.left), ihsecond (hpoint.imp_left And.right)⟩
  | optional _ ih | many _ ih | ahead _ ih | newlines _ _ ih | traced _ _ ih => exact ih hpoint
  | notAhead _ ih => exact ⟨ih hpoint, fun _ => hallows _⟩
  | endPoint _ ih =>
      have hpoint := hpoint.resolve_left Bool.false_ne_true.symm
      exact ⟨ih (.inr hpoint), hpoint⟩

namespace Outcome.Has

variable {i j : Nat} {v : Span} {o : Outcome}

theorem earlier (htrait : trait.Lawful source) (ho : o.Has source trait j) (hij : i ≤ j)
    (hstop : o.stop? = none) : o.Has source trait i := by
  cases o with
  | matched v k => cases hstop
  | failed f => exact htrait.earlier i j f hij ho
  | aborted cause =>
      cases cause with
      | fatal f => exact htrait.earlier i j f hij ho
      | undefinedRule name => exact ho

theorem deeper {f g : Failure} (hf : (Outcome.failed f).Has source trait i)
    (hg : (Outcome.failed g).Has source trait i) :
    (Outcome.failed (f.deeper g)).Has source trait i := by
  unfold Failure.deeper
  split
  · exact hg
  · exact hf

end Outcome.Has

theorem Shows.cases {Inv : σ → Prop} {matcher : Matcher σ} (h : Shows source trait Inv matcher)
    (mode : Mode) {i : Nat} {s : σ} (hi : i ≤ source.last) (hs : Inv s) :
    (∃ v j t, matcher mode i s = (.matched v j, t) ∧
      (i ≤ j ∧ j ≤ source.last ∧ trait.value i v j) ∧ Inv t) ∨
    (∃ f t, matcher mode i s = (.failed f, t) ∧ (Outcome.failed f).Has source trait i ∧ Inv t) ∨
    ∃ cause t, matcher mode i s = (.aborted cause, t) ∧
      (Outcome.aborted cause).Has source trait i ∧ Inv t := by
  have h := h mode i s hi hs
  generalize matcher mode i s = x at h ⊢
  obtain ⟨o, t⟩ := x
  cases o with
  | matched v j => exact .inl ⟨v, j, t, rfl, h⟩
  | failed f => exact .inr (.inl ⟨f, t, rfl, h⟩)
  | aborted cause => exact .inr (.inr ⟨cause, t, rfl, h⟩)

section

theorem Source.has_accept (htrait : trait.Lawful source) {i : Nat} (hi : i ≤ source.last) :
    (source.accept i).Has source trait i :=
  ⟨source.le_next hi, source.next_le_last i, htrait.token i hi⟩

theorem Source.has_spanFrom (htrait : trait.Lawful source) {i j : Nat} (hij : i ≤ j)
    (hj : j ≤ source.last) : (Outcome.matched (source.spanFrom i j) j).Has source trait i :=
  ⟨hij, hj, htrait.spanFrom i j hij hj⟩

theorem Source.has_nothing (htrait : trait.Lawful source) {i : Nat} (hi : i ≤ source.last) :
    (Outcome.matched (Span.point (source.offset i)) i).Has source trait i := by
  rw [← source.spanFrom_self]
  exact source.has_spanFrom htrait (Nat.le_refl i) hi

variable [Ledger σ] {Inv : σ → Prop} (htrait : trait.Passed source Inv)
include htrait

theorem Source.fail_shows {reason : Reason} (hreason : trait.Allows source reason) (mode : Mode)
    {start i : Nat} {s : σ} (hstart : start ≤ i) (hi : i ≤ source.last) (hs : Inv s) :
    (source.fail reason mode i s).1.Has source trait start ∧
      Inv (source.fail reason mode i s).2 := by
  have hfailure := hreason i hi
  constructor
  · rw [Source.fail_fst, Outcome.ofFailure]
    split <;> exact htrait.earlier start i _ hstart hfailure
  · unfold Source.fail
    dsimp only
    split
    · exact hs
    · exact htrait.note s i _ hs hfailure

theorem Source.repeated_shows {matcher : Matcher σ} (hpart : Shows source trait Inv matcher)
    (mode : Mode) (start rounds : Nat) :
    ∀ i s, start ≤ i → i ≤ source.last → Inv s →
      (source.repeated matcher mode start rounds i s).1.Has source trait start ∧
        Inv (source.repeated matcher mode start rounds i s).2 := by
  induction rounds with
  | zero => exact fun i s hstart hi hs => ⟨source.has_spanFrom htrait.toLawful hstart hi, hs⟩
  | succ rounds ih =>
      intro i s hstart hi hs
      rw [Source.repeated]
      obtain ⟨v, j, t, hx, ⟨hij, hj, -⟩, ht⟩ | ⟨f, t, hx, -, ht⟩ | ⟨cause, t, hx, ho, ht⟩ :=
        hpart.cases mode hi hs
      all_goals rw [hx]
      · have hstart : start ≤ j := Nat.le_trans hstart hij
        dsimp only
        split
        · exact ⟨source.has_spanFrom htrait.toLawful hstart hj, ht⟩
        · exact ih j t hstart hj ht
      · exact ⟨source.has_spanFrom htrait.toLawful hstart hi, ht⟩
      · exact ⟨ho.earlier htrait.toLawful hstart rfl, ht⟩

variable [DecidableEq κ] [Describe κ]

/-- A rule shows a trait if the recursive rules do that it refers to. -/
theorem Rule.run_shows {call : Nat → Matcher σ} (depth : Nat) (rule : Rule κ)
    (hrule : rule.Upholds source trait)
    (hcall : ∀ r, rule.RefersTo r → Shows source trait Inv (call r)) :
    Shows source trait Inv (rule.run source depth call) := by
  -- a part shows the trait, and an operator adds spans of tokens, points and failures only
  induction rule with
  | token kind | word | keyword text =>
      intro mode i s hi hs
      rw [Rule.run]
      split
      · exact ⟨source.has_accept htrait.toLawful hi, hs⟩
      · exact source.fail_shows htrait hrule mode (Nat.le_refl i) hi hs
  | lineBreak =>
      intro mode i s hi hs
      rw [Rule.run]
      split
      · exact ⟨source.has_nothing htrait.toLawful hi, hs⟩
      · exact source.fail_shows htrait hrule mode (Nat.le_refl i) hi hs
  | nothing => exact fun _ i _ hi hs => ⟨source.has_nothing htrait.toLawful hi, hs⟩
  | any => exact fun _ i _ hi hs => ⟨source.has_accept htrait.toLawful hi, hs⟩
  | fail reason =>
      exact fun mode i s hi hs => source.fail_shows htrait hrule mode (Nat.le_refl i) hi hs
  | failNext reason =>
      intro mode i s hi hs
      exact source.fail_shows htrait hrule mode (source.le_next hi) (source.next_le_last i) hs
  | andThen first second ihfirst ihsecond =>
      intro mode i s hi hs
      have ihfirst := ihfirst hrule.1 fun r hr => hcall r (.inl hr)
      have ihsecond := ihsecond hrule.2 fun r hr => hcall r (.inr hr)
      rw [Rule.run]
      obtain ⟨v, j, t, hx, ⟨hij, hj, -⟩, ht⟩ | ⟨f, t, hx, ho, ht⟩ | ⟨cause, t, hx, ho, ht⟩ :=
        ihfirst.cases mode hi hs
      all_goals rw [hx]
      · dsimp only
        obtain ⟨w, k, u, hy, ⟨hjk, hk, -⟩, hu⟩ | ⟨f, u, hy, ho, hu⟩ | ⟨cause, u, hy, ho, hu⟩ :=
          ihsecond.cases mode hj ht
        all_goals rw [hy]
        · exact ⟨source.has_spanFrom htrait.toLawful (Nat.le_trans hij hjk) hk, hu⟩
        · exact ⟨ho.earlier htrait.toLawful hij rfl, hu⟩
        · exact ⟨ho.earlier htrait.toLawful hij rfl, hu⟩
      · exact ⟨ho, ht⟩
      · exact ⟨ho, ht⟩
  | orElse first second ihfirst ihsecond =>
      intro mode i s hi hs
      have ihfirst := ihfirst hrule.1 fun r hr => hcall r (.inl hr)
      have ihsecond := ihsecond hrule.2 fun r hr => hcall r (.inr hr)
      rw [Rule.run]
      obtain ⟨v, j, t, hx, ho, ht⟩ | ⟨f, t, hx, ho, ht⟩ | ⟨cause, t, hx, ho, ht⟩ :=
        ihfirst.cases mode hi hs
      all_goals rw [hx]
      · exact ⟨ho, ht⟩
      · dsimp only
        obtain ⟨w, k, u, hy, ho', hu⟩ | ⟨g, u, hy, ho', hu⟩ | ⟨cause, u, hy, ho', hu⟩ :=
          ihsecond.cases mode hi ht
        all_goals rw [hy]
        · exact ⟨ho', hu⟩
        · exact ⟨ho.deeper ho', hu⟩
        · exact ⟨ho', hu⟩
      · exact ⟨ho, ht⟩
  | many part ih =>
      intro mode i s hi hs
      exact source.repeated_shows htrait (ih hrule hcall) mode i _ i s (Nat.le_refl i) hi hs
  | optional part ih =>
      intro mode i s hi hs
      rw [Rule.run]
      obtain ⟨v, j, t, hx, ⟨hij, hj, -⟩, ht⟩ | ⟨f, t, hx, -, ht⟩ | ⟨cause, t, hx, ho, ht⟩ :=
        (ih hrule hcall).cases mode hi hs
      all_goals rw [hx]
      · exact ⟨source.has_spanFrom htrait.toLawful hij hj, ht⟩
      · exact ⟨source.has_nothing htrait.toLawful hi, ht⟩
      · exact ⟨ho, ht⟩
  | ahead part ih =>
      intro mode i s hi hs
      rw [Rule.run]
      obtain ⟨v, j, t, hx, -, ht⟩ | ⟨f, t, hx, ho, ht⟩ | ⟨cause, t, hx, ho, ht⟩ :=
        (ih hrule hcall).cases mode hi hs
      all_goals rw [hx]
      · exact ⟨source.has_nothing htrait.toLawful hi, ht⟩
      · exact ⟨ho, ht⟩
      · exact ⟨ho, ht⟩
  | endPoint part ih =>
      intro mode i s hi hs
      rw [Rule.run]
      obtain ⟨v, j, t, hx, ⟨hij, hj, hv⟩, ht⟩ | ⟨f, t, hx, ho, ht⟩ | ⟨cause, t, hx, ho, ht⟩ :=
        (ih hrule.1 hcall).cases mode hi hs
      all_goals rw [hx]
      · exact ⟨⟨hij, hj, hrule.2 i v j hv⟩, ht⟩
      · exact ⟨ho, ht⟩
      · exact ⟨ho, ht⟩
  | notAhead part ih =>
      intro mode i s hi hs
      rw [Rule.run]
      obtain ⟨v, j, t, hx, -, ht⟩ | ⟨f, t, hx, -, ht⟩ | ⟨cause, t, hx, ho, ht⟩ :=
        (ih hrule.1 hcall).cases { mode with quiet := true } hi hs
      all_goals rw [hx]
      · exact source.fail_shows htrait (hrule.2 _) mode (Nat.le_refl i) hi ht
      · exact ⟨source.has_nothing htrait.toLawful hi, ht⟩
      · exact ⟨ho, ht⟩
  | newlines count part ih =>
      exact fun mode i s hi hs => ih hrule hcall { mode with newlines := count } i s hi hs
  | traced name part ih =>
      intro mode i s hi hs
      have hx := ih hrule hcall mode i s hi hs
      exact ⟨hx.1, htrait.observe _ _ hx.2⟩
  | ref r => exact hcall r rfl

end

/-! ## Results in the memo -/

/-- The trait, with the values of matches left open unless the condition holds. -/
def Trait.whenever (trait : Trait) (condition : Prop) : Trait :=
  { trait with value := fun start value stop => condition → trait.value start value stop }

/-- The results in the memo have the trait, those of known recursive rules with their values, and
so has the failure that tells most. -/
structure State.Keeps (source : Source κ) (trait : Trait) (known : (scope rule : Nat) → Prop)
    (state : State) : Prop where
  memo : ∀ (key : Application) (outcome : Outcome), state.memo[key]? = some outcome →
    outcome.Has source (trait.whenever (known key.scope key.rule)) key.index
  furthest : ∀ failure, state.furthest = some failure → ∃ start, trait.failure start failure

/-- What the bodies of recursive rules add has the trait, and those of known ones refer to known
ones only. -/
structure Definitions.Upholds [Describe κ] (definitions : Definitions κ) (source : Source κ)
    (trait : Trait) (known : Nat → Prop) : Prop where
  body : ∀ r body, definitions.body? r = some body →
    body.Upholds source (trait.whenever (known r))
  closed : ∀ r body, known r → definitions.body? r = some body → ∀ r', body.RefersTo r' → known r'

theorem Outcome.Has.whenever {i : Nat} {o : Outcome} {P Q : Prop}
    (ho : o.Has source (trait.whenever Q) i) (himp : P → Q) :
    o.Has source (trait.whenever P) i := by
  cases o with
  | matched v j => exact ⟨ho.1, ho.2.1, fun hp => ho.2.2 (himp hp)⟩
  | failed f => exact ho
  | aborted cause => cases cause <;> exact ho

namespace State.Keeps

variable {known : (scope rule : Nat) → Prop} {s : State}

theorem note (h : s.Keeps source trait known) {i : Nat} {f : Failure} (hf : trait.failure i f) :
    (Ledger.note s f).Keeps source trait known := by
  refine ⟨fun key o ho => h.memo key o (s.memo_note f ▸ ho), fun g hg => ?_⟩
  change (s.note f).furthest = some g at hg
  unfold State.note at hg
  split at hg
  · obtain rfl := Option.some.inj hg
    exact ⟨i, hf⟩
  · split at hg
    · obtain rfl := Option.some.inj hg
      exact ⟨i, hf⟩
    · exact h.furthest g hg

theorem observe (h : s.Keeps source trait known) (e : Event) :
    (Ledger.observe s e).Keeps source trait known :=
  ⟨fun key o ho => h.memo key o (s.memo_observe e ▸ ho), h.furthest⟩

theorem remember (h : s.Keeps source trait known) {key : Application} {o : Outcome}
    (ho : o.Has source (trait.whenever (known key.scope key.rule)) key.index) :
    (s.remember key o).Keeps source trait known := by
  refine ⟨fun key' o' ho' => ?_, fun f hf => h.furthest f (s.furthest_remember key o ▸ hf)⟩
  rcases State.recall_remember ho' with ⟨rfl, rfl, -⟩ | hold
  · exact ho
  · exact h.memo key' o' hold

end State.Keeps

theorem Trait.Lawful.passed (h : trait.Lawful source) (condition : Prop)
    (known : (scope rule : Nat) → Prop) :
    (trait.whenever condition).Passed source (State.Keeps source trait known) where
  spanFrom i j hij hj _ := h.spanFrom i j hij hj
  token i hi _ := h.token i hi
  earlier := h.earlier
  note _ _ _ hs hf := hs.note hf
  observe _ e hs := hs.observe e

variable [DecidableEq κ] [Describe κ] {definitions : Definitions κ}
  {known : (scope rule : Nat) → Prop}

/-- Recursive rules show the trait, the known ones with the values of their matches, if their bodies
uphold it. -/
theorem Definitions.Upholds.invoke_shows
    (h : definitions.Upholds source trait (known definitions.scope)) (htrait : trait.Lawful source)
    (hlost : trait.lost) {limit : Nat} (hlimit : trait.Allows source (.depthLimit limit))
    (levels : Nat) :
    ∀ r, Shows source (trait.whenever (known definitions.scope r))
      (State.Keeps source trait known) (definitions.invoke source limit levels r) := by
  induction levels using Nat.strongRecOn with
  | ind levels ih =>
      intro r mode i s hi hs
      have hpassed := htrait.passed (known definitions.scope r) known
      apply invoke_cases (P := fun x =>
        x.1.Has source (trait.whenever (known definitions.scope r)) i ∧
          x.2.Keeps source trait known)
      · exact fun o hmemo => ⟨hs.memo _ o hmemo, hs⟩
      · exact fun _ _ => ⟨hlost, hs⟩
      · exact fun _ _ _ _ => source.fail_shows hpassed hlimit mode (Nat.le_refl i) hi hs
      · rintro body fewer - hbody rfl
        -- what the body calls is known as soon as the rule itself is
        have hcall : ∀ r', body.RefersTo r' →
            Shows source (trait.whenever (known definitions.scope r))
              (State.Keeps source trait known) (definitions.invoke source limit fewer r') := by
          intro r' hr' mode' j t hj ht
          obtain ⟨ho, hu⟩ := ih fewer (Nat.lt_succ_self fewer) r' mode' j t hj ht
          exact ⟨ho.whenever fun hr => h.closed r body hr hbody r' hr', hu⟩
        obtain ⟨ho, ht⟩ := body.run_shows hpassed (limit - fewer) (h.body r body hbody) hcall
          mode i s hi hs
        exact ⟨ho, ht.remember ho⟩

theorem Cursor.parse_shows {cursor : Cursor κ} {P : Prop} (htrait : trait.Lawful cursor.source)
    (hlost : trait.lost) (hlimit : trait.Allows cursor.source (.depthLimit cursor.maxDepth))
    (hindex : cursor.index ≤ cursor.source.last)
    (hstate : cursor.state.Keeps cursor.source trait known)
    (h : definitions.Upholds cursor.source trait (known definitions.scope)) {rule : Rule κ}
    (hrule : rule.Upholds cursor.source (trait.whenever P))
    (hrefers : P → ∀ r, rule.RefersTo r → known definitions.scope r) :
    (cursor.parse definitions rule).1.Has cursor.source (trait.whenever P) cursor.index ∧
      (cursor.parse definitions rule).2.state.Keeps cursor.source trait known := by
  refine rule.run_shows (htrait.passed P known) cursor.depth hrule ?_ cursor.mode cursor.index
    cursor.state hindex hstate
  intro r hr mode i s hi hs
  obtain ⟨ho, ht⟩ := h.invoke_shows htrait hlost hlimit (cursor.maxDepth - cursor.depth) r mode i
    s hi hs
  exact ⟨ho.whenever fun hp => hrefers hp r hr, ht⟩

end AnnotationScan.Peg
