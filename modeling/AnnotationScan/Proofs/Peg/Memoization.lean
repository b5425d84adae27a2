import AnnotationScan.Proofs.Peg.Expansion
import AnnotationScan.Proofs.Peg.Lockstep

/-!
# The memo

A memo tells the truth if each of its results is derivable.  Applying a rule keeps it true, whatever
limit was in force when a result was stored and whatever limit is now, because a derivation knows no
limit.  A parse with a true memo therefore answers as a parse without a memo does.
-/

namespace AnnotationScan.Peg

variable {κ σ : Type} [Describe κ] {source : Source κ} {definitions : Definitions κ}

theorem Derives.isDecided {d : Nat} {rule : Rule κ} {m : Bool} {i : Nat} {o : Outcome}
    (h : Derives source definitions d rule m i o) : o.isDecided = true := by
  induction h with
  | newlines _ ih | traced _ ih | ref _ _ ih => exact ih
  | _ => rfl

theorem Abort.Genuine.eq_depthLimit {f : Failure} (h : (Abort.fatal f).Genuine) :
    ∃ limit, f.reason = .depthLimit limit := by
  cases hr : f.reason with
  | depthLimit limit => exact ⟨limit, rfl⟩
  | _ => simp [Abort.Genuine, Failure.isFatal, hr, Reason.isFatal] at h

theorem Explained.aborted_or_derives {rule : Rule κ} {m : Bool} {i : Nat} {o : Outcome}
    (h : Explained source definitions rule m i o) :
    (∃ cause, o = .aborted cause) ∨ ∃ d, Derives source definitions d rule m i o := by
  cases o with
  | matched v j => exact .inr h
  | failed f => exact .inr h
  | aborted cause => exact .inl ⟨cause, rfl⟩

/-- Every result of the recursive rules in the memo is derivable. -/
def State.Truthful (source : Source κ) (definitions : Definitions κ) (state : State) : Prop :=
  ∀ (key : Application) (o : Outcome), state.memo[key]? = some o →
    key.scope = definitions.scope → key.index ≤ source.last → ∃ d,
      Derives source definitions d (.ref key.rule) key.mode.newlines key.index o

namespace State

theorem memo_note (s : State) (f : Failure) : (s.note f).memo = s.memo := by
  unfold note
  split
  · rfl
  · split <;> rfl

theorem memo_observe (s : State) (e : Event) : (s.observe e).memo = s.memo := rfl

theorem memo_remember {s : State} {key : Application} {o : Outcome} (ho : o.isDecided = true) :
    (s.remember key o).memo = s.memo.insert key o := by
  cases o with
  | matched v j => rfl
  | failed f => rfl
  | aborted cause => simp [Outcome.isDecided] at ho

theorem remember_of_not_isDecided {s : State} {key : Application} {o : Outcome}
    (ho : o.isDecided = false) : s.remember key o = s := by
  cases o with
  | aborted cause => rfl
  | _ => cases ho

/-- What is found in the memo was found there before, or it is what has just been stored. -/
theorem recall_remember {s : State} {key key' : Application} {o o' : Outcome}
    (h : (s.remember key o).memo[key']? = some o') :
    (key = key' ∧ o = o' ∧ o.isDecided = true) ∨ s.memo[key']? = some o' := by
  cases hd : o.isDecided with
  | false =>
      rw [remember_of_not_isDecided hd] at h
      exact .inr h
  | true =>
      rw [memo_remember hd, Std.TreeMap.getElem?_insert] at h
      split at h
      case isTrue heq => exact .inl ⟨Std.LawfulEqCmp.eq_of_compare heq, Option.some.inj h, rfl⟩
      case isFalse => exact .inr h

theorem furthest_remember (s : State) (key : Application) (o : Outcome) :
    (s.remember key o).furthest = s.furthest := by
  cases o <;> rfl

theorem Truthful.of_memo_eq {s t : State} (h : s.Truthful source definitions)
    (hmemo : t.memo = s.memo) : t.Truthful source definitions := by
  intro key o ho
  exact h key o (hmemo ▸ ho)

theorem Truthful.note {s : State} (h : s.Truthful source definitions) (f : Failure) :
    (Ledger.note s f).Truthful source definitions :=
  h.of_memo_eq (s.memo_note f)

theorem Truthful.observe {s : State} (h : s.Truthful source definitions) (e : Event) :
    (Ledger.observe s e).Truthful source definitions :=
  h.of_memo_eq (s.memo_observe e)

theorem truthful_of_memo_empty {s : State} (h : s.memo = ∅) : s.Truthful source definitions := by
  intro key o ho
  simp [h] at ho

theorem Truthful.remember {s : State} (h : s.Truthful source definitions) {key : Application}
    {o : Outcome}
    (ho : Explained source definitions (.ref key.rule) key.mode.newlines key.index o) :
    (s.remember key o).Truthful source definitions := by
  intro key' o' hkey' hscope hindex
  rcases recall_remember hkey' with ⟨rfl, rfl, hd⟩ | hold
  · exact ho.derives hd
  · exact h key' o' hold hscope hindex

end State

theorem Derives.explained {d : Nat} {rule : Rule κ} {m : Bool} {i : Nat} {o : Outcome}
    (h : Derives source definitions d rule m i o) : Explained source definitions rule m i o := by
  have hd := h.isDecided
  cases o with
  | matched v j => exact ⟨d, h⟩
  | failed f => exact ⟨d, h⟩
  | aborted cause => simp [Outcome.isDecided] at hd

variable [DecidableEq κ]

namespace Definitions

theorem invoke_recall {limit levels rule : Nat} {mode : Mode} {i : Nat} {s : State} {o : Outcome}
    (h : s.memo[(⟨definitions.scope, rule, i, mode⟩ : Application)]? = some o) :
    definitions.invoke source limit levels rule mode i s = (o, s) := by
  cases levels <;> simp [invoke, h]

theorem invoke_undefined {limit levels rule : Nat} {mode : Mode} {i : Nat} {s : State}
    (h : s.memo[(⟨definitions.scope, rule, i, mode⟩ : Application)]? = none)
    (hbody : definitions.body? rule = none) :
    definitions.invoke source limit levels rule mode i s =
      (.aborted (.undefinedRule (definitions.name rule)), s) := by
  cases levels <;> simp [invoke, h, hbody]

theorem invoke_zero {limit rule : Nat} {mode : Mode} {i : Nat} {s : State} {body : Rule κ}
    (h : s.memo[(⟨definitions.scope, rule, i, mode⟩ : Application)]? = none)
    (hbody : definitions.body? rule = some body) :
    definitions.invoke source limit 0 rule mode i s =
      source.fail (.depthLimit limit) mode i s := by
  simp [invoke, h, hbody]

theorem invoke_body {limit levels rule : Nat} {mode : Mode} {i : Nat} {s : State}
    {body : Rule κ} (h : s.memo[(⟨definitions.scope, rule, i, mode⟩ : Application)]? = none)
    (hbody : definitions.body? rule = some body) :
    definitions.invoke source limit (levels + 1) rule mode i s =
      let x := body.run source (limit - levels) (definitions.invoke source limit levels) mode i s
      (x.1, x.2.remember ⟨definitions.scope, rule, i, mode⟩ x.1) := by
  simp [invoke, h, hbody]

/-- A recursive rule is recalled, or it has no body, or it meets the limit, or its body is run. -/
theorem invoke_cases {P : Outcome × State → Prop} {limit levels rule : Nat} {mode : Mode} {i : Nat}
    {s : State}
    (hrecall : ∀ o, s.memo[(⟨definitions.scope, rule, i, mode⟩ : Application)]? = some o →
      P (o, s))
    (hundefined : s.memo[(⟨definitions.scope, rule, i, mode⟩ : Application)]? = none →
      definitions.body? rule = none →
        P (.aborted (.undefinedRule (definitions.name rule)), s))
    (hlimited : ∀ body, s.memo[(⟨definitions.scope, rule, i, mode⟩ : Application)]? = none →
      definitions.body? rule = some body → levels = 0 →
        P (source.fail (.depthLimit limit) mode i s))
    (hrun : ∀ body fewer, s.memo[(⟨definitions.scope, rule, i, mode⟩ : Application)]? = none →
      definitions.body? rule = some body → levels = fewer + 1 →
        let x := body.run source (limit - fewer) (definitions.invoke source limit fewer) mode i s
        P (x.1, x.2.remember ⟨definitions.scope, rule, i, mode⟩ x.1)) :
    P (definitions.invoke source limit levels rule mode i s) := by
  cases hmemo : s.memo[(⟨definitions.scope, rule, i, mode⟩ : Application)]? with
  | some o =>
      rw [invoke_recall hmemo]
      exact hrecall o hmemo
  | none =>
      cases hbody : definitions.body? rule with
      | none =>
          rw [invoke_undefined hmemo hbody]
          exact hundefined hmemo hbody
      | some body =>
          cases levels with
          | zero =>
              rw [invoke_zero hmemo hbody]
              exact hlimited body hmemo hbody rfl
          | succ levels =>
              rw [invoke_body hmemo hbody]
              exact hrun body levels hmemo hbody rfl

theorem invoke_sound (source : Source κ) (definitions : Definitions κ) (limit levels rule : Nat) :
    Sound source definitions (State.Truthful source definitions) (.ref rule)
      (definitions.invoke source limit levels rule) := by
  induction levels using Nat.strongRecOn generalizing rule with
  | ind levels ih =>
      intro mode i s hi hs
      apply invoke_cases (P := fun x => x.2.Truthful source definitions ∧
        Explained source definitions (.ref rule) mode.newlines i x.1)
      · exact fun o ho => ⟨hs, (hs _ o ho rfl hi).elim fun d hd => hd.explained⟩
      · exact fun _ _ => ⟨hs, trivial⟩
      · exact fun _ _ _ _ => ⟨source.fail_inv (fun _ f h => h.note f) _ mode i hs, rfl⟩
      · rintro body fewer - hbody rfl
        have h := Rule.run_sound (fun _ f h => h.note f) (fun _ e h => h.observe e)
          (ih fewer (Nat.lt_succ_self fewer)) (limit - fewer) body mode i s hi hs
        exact ⟨h.1.remember (h.2.ref hbody), h.2.ref hbody⟩

end Definitions

/-- A parse with a true memo keeps it true, and a derivation explains what comes of it. -/
theorem Rule.run_invoke_sound (source : Source κ) (definitions : Definitions κ)
    (limit levels depth : Nat) (rule : Rule κ) :
    Sound source definitions (State.Truthful source definitions) rule
      (rule.run source depth (definitions.invoke source limit levels)) :=
  Rule.run_sound (fun _ f h => h.note f) (fun _ e h => h.observe e)
    (definitions.invoke_sound source limit levels) depth rule

/-- Two runs without a memo keep in step, unless the first one has less room and reaches its
limit. -/
theorem Definitions.expand_inStep {τ : Type} [Ledger σ] [Ledger τ] {S : σ → τ → Prop}
    (Escape : Abort → Prop) (hkeeps : (Likeness.same source).Keeps S) {limit limit' : Nat} :
    ∀ {levels levels' : Nat}, levels ≤ levels' →
      (∀ f : Failure, f.reason = .depthLimit limit → Escape (.fatal f)) ∨
        levels = levels' ∧ limit = limit' →
      ∀ rule, (Likeness.same source).InStep definitions Escape S (.ref rule)
        (definitions.expand source limit levels rule)
        (definitions.expand source limit' levels' rule) := by
  intro levels
  induction levels with
  | zero =>
      intro levels' _ hescape rule mode i s t _ hS _
      cases hbody : definitions.body? rule with
      | none =>
          rw [expand, expand, hbody]
          exact .inr ⟨.undefinedRule, hS⟩
      | some body =>
          rcases hescape with hescape | ⟨rfl, rfl⟩
          · rw [expand, hbody]
            exact .inl ⟨_, rfl, hescape _ rfl⟩
          · rw [expand, expand, hbody]
            exact (Likeness.same source).agree_fail hkeeps _ mode i hS
  | succ levels ih =>
      intro levels' hle hescape rule mode i s t hi hS _
      obtain ⟨levels', rfl⟩ : ∃ n, levels' = n + 1 := ⟨levels' - 1, by omega⟩
      cases hbody : definitions.body? rule with
      | none =>
          rw [expand, expand, hbody]
          exact .inr ⟨.undefinedRule, hS⟩
      | some body =>
          rw [expand_succ hbody, expand_succ hbody]
          refine (Likeness.same source).run_inStep hkeeps _ _ (fun rule mode i s _ hi _ =>
            rule.run_expand_explained source definitions limit levels _ mode hi s)
            (ih (by omega) ?_) body mode i s t hi hS
            (source.alikeFor_self definitions body mode.newlines hi)
          exact hescape.imp id fun h => ⟨by omega, h.2⟩

/-- What a run without a memo and one with a memo have in common: it implies that the memo is true,
and it stays so when a result is looked up or stored. -/
structure Memoizes [Ledger σ] (source : Source κ) (definitions : Definitions κ)
    (S : σ → State → Prop) : Prop where
  keeps : (Likeness.same source).Keeps S
  truthful : ∀ {s t}, S s t → t.Truthful source definitions
  lookedUp : ∀ limit levels rule mode {i s t}, i ≤ source.last → S s t →
    t.memo[(⟨definitions.scope, rule, i, mode⟩ : Application)]? =
      some (definitions.expand source limit levels rule mode i s).1 →
    S (definitions.expand source limit levels rule mode i s).2 t
  remembered : ∀ limit levels rule mode {i s t}, i ≤ source.last →
    S (definitions.expand source limit levels rule mode i s).2 t →
    S (definitions.expand source limit levels rule mode i s).2
      (t.remember ⟨definitions.scope, rule, i, mode⟩
        (definitions.expand source limit levels rule mode i s).1)

namespace Memoizes

variable [Ledger σ] {S : σ → State → Prop}

/-- A recursive rule has the same outcome without and with a memo, unless the run without stops. -/
theorem expand_inStep_invoke (h : Memoizes source definitions S) (limit levels rule : Nat) :
    (Likeness.same source).InStep definitions (fun _ => True) S (.ref rule)
      (definitions.expand source limit levels rule)
      (definitions.invoke source limit levels rule) := by
  induction levels generalizing rule with
  | zero =>
      intro mode i s t hi hS _
      rw [Definitions.expand]
      cases definitions.body? rule with
      | none => exact .inl ⟨_, rfl, trivial⟩
      | some body => exact .inl ⟨_, rfl, trivial⟩
  | succ levels ih =>
      intro mode i s t hi hS _
      have he := (definitions.expand_sound source limit (levels + 1) rule mode i s hi trivial).2
      have hrecall := h.lookedUp limit (levels + 1) rule mode hi hS
      cases hbody : definitions.body? rule with
      | none =>
          rw [Definitions.expand, hbody]
          exact .inl ⟨_, rfl, trivial⟩
      | some body =>
          cases hmemo : t.memo[(⟨definitions.scope, rule, i, mode⟩ : Application)]? with
          | some o =>
              rw [Definitions.invoke_recall hmemo]
              rcases he.aborted_or_derives with ⟨cause, ho⟩ | ⟨d, hd⟩
              · exact .inl ⟨cause, ho, trivial⟩
              · obtain ⟨e, he⟩ := h.truthful hS _ o hmemo rfl hi
                have ho := hd.unique he hi
                exact .inr ⟨Likeness.outcome_same.2 ho, hrecall (ho ▸ hmemo)⟩
          | none =>
              have hrun := (Likeness.same source).run_inStep h.keeps (limit - levels)
                (limit - levels) (fun rule mode _ s _ hi _ =>
                  rule.run_expand_explained source definitions limit levels _ mode hi s)
                ih body mode i s t hi hS (source.alikeFor_self definitions body mode.newlines hi)
              rw [← Definitions.expand_succ hbody] at hrun
              rw [Definitions.invoke_body hmemo hbody]
              obtain hstop | ⟨ho, hS'⟩ := hrun
              · exact .inl hstop
              · have hremember := h.remembered limit (levels + 1) rule mode hi hS'
                rw [Likeness.outcome_same.1 ho] at hremember
                exact .inr ⟨ho, hremember⟩

/-- A rule has the same outcome without and with a memo, unless the run without stops. -/
theorem run_inStep (h : Memoizes source definitions S) (limit levels depth depth' : Nat)
    (rule : Rule κ) (mode : Mode) {i : Nat} {s : σ} {t : State} (hi : i ≤ source.last)
    (hS : S s t) (hdecided : (rule.run source depth
      (definitions.expand source limit levels) mode i s).1.isDecided = true) :
    let plain := rule.run source depth (definitions.expand source limit levels) mode i s
    let memoized := rule.run source depth' (definitions.invoke source limit levels) mode i t
    plain.1 = memoized.1 ∧ S plain.2 memoized.2 := by
  have hrun := (Likeness.same source).run_inStep h.keeps depth depth'
    (fun rule mode _ s _ hi _ =>
      rule.run_expand_explained source definitions limit levels depth mode hi s)
    (h.expand_inStep_invoke limit levels) rule mode i s t hi hS
    (source.alikeFor_self definitions rule mode.newlines hi)
  obtain ⟨ho, hS⟩ := hrun.of_isDecided hdecided
  exact ⟨Likeness.outcome_same.1 ho, hS⟩

/-- To tell the truth is enough for a memo. -/
theorem of_truthful : Memoizes source definitions
    fun (_ : σ) (t : State) => t.Truthful source definitions where
  keeps := ⟨fun ht _ => ht.note _, fun _ _ ht => ht.observe _⟩
  truthful ht := ht
  lookedUp _ _ _ _ _ _ _ _ ht _ := ht
  remembered limit levels rule mode i s _ hi ht :=
    ht.remember (definitions.expand_sound source limit levels rule mode i s hi trivial).2

end Memoizes

namespace Likeness

variable {source' : Source κ} (L : Likeness source source')

/-- What two states have in common when each run has a memo: the failures that tell most, and the
results of recursive rules wherever the tokens look alike. -/
structure Shared (definitions : Definitions κ) (s t : State) : Prop where
  truthful : s.Truthful source definitions
  furthest : Option.Rel L.failure s.furthest t.furthest
  memo : ∀ rule mode i, i ≤ source.last →
    source.AlikeFor source' definitions (.ref rule) mode.newlines i →
    Option.Rel L.Outcome s.memo[(⟨definitions.scope, rule, i, mode⟩ : Application)]?
      t.memo[(⟨definitions.scope, rule, i, mode⟩ : Application)]?

omit [DecidableEq κ] in
theorem shared_keeps : L.Keeps (L.Shared definitions) where
  note {s t f g} h hf := by
    refine ⟨h.truthful.note f, ?_, ?_⟩
    · change Option.Rel L.failure (s.note f).furthest (t.note g).furthest
      rw [State.furthest_note, State.furthest_note]
      exact .some (L.better hf h.furthest)
    · change ∀ rule mode i, _ → _ → Option.Rel _ (s.note f).memo[_]? (t.note g).memo[_]?
      rw [State.memo_note, State.memo_note]
      exact h.memo
  observe e _ h := ⟨h.truthful.observe e, h.furthest, h.memo⟩

omit [DecidableEq κ] in
theorem Shared.remember {L : Likeness source source'} {s t : State}
    (h : L.Shared definitions s t) {key : Application}
    {o o' : Peg.Outcome}
    (hexplained : Explained source definitions (.ref key.rule) key.mode.newlines key.index o)
    (ho : L.Outcome o o') :
    L.Shared definitions (s.remember key o) (t.remember key o') := by
  refine ⟨h.truthful.remember hexplained, ?_, ?_⟩
  · rw [State.furthest_remember, State.furthest_remember]
    exact h.furthest
  · intro rule mode i hi halike
    cases hd : o.isDecided with
    | false =>
        rw [State.remember_of_not_isDecided hd, State.remember_of_not_isDecided (ho.isDecided_eq ▸ hd)]
        exact h.memo rule mode i hi halike
    | true =>
        rw [State.memo_remember hd, State.memo_remember (ho.isDecided_eq ▸ hd),
          Std.TreeMap.getElem?_insert, Std.TreeMap.getElem?_insert]
        split
        · exact .some ho
        · exact h.memo rule mode i hi halike

/-- What two states have in common is enough for two runs with memos: results are looked up alike
wherever the tokens look alike, and what is stored alike stays in common. -/
structure Remembers (definitions : Definitions κ) (S : State → State → Prop) : Prop where
  keeps : L.Keeps S
  truthful : ∀ {s t}, S s t → s.Truthful source definitions
  recalled : ∀ {s t}, S s t → ∀ rule mode i, i ≤ source.last →
    source.AlikeFor source' definitions (.ref rule) mode.newlines i →
    Option.Rel L.Outcome s.memo[(⟨definitions.scope, rule, i, mode⟩ : Application)]?
      t.memo[(⟨definitions.scope, rule, i, mode⟩ : Application)]?
  remembered : ∀ {s t key o o'}, S s t →
    Explained source definitions (.ref key.rule) key.mode.newlines key.index o → L.Outcome o o' →
    S (s.remember key o) (t.remember key o')

omit [DecidableEq κ] in
theorem shared_remembers : L.Remembers definitions (L.Shared definitions) where
  keeps := L.shared_keeps
  truthful h := h.truthful
  recalled h := h.memo
  remembered h := h.remember

namespace Remembers

variable {L : Likeness source source'} {S : State → State → Prop}

/-- Two results remembered alike need no parse, and neither does a rule without a body. -/
theorem agree_invoke (h : L.Remembers definitions S) {Escape : Abort → Prop}
    {limit limit' levels levels' rule i : Nat} {mode : Mode} {s t : State} (hi : i ≤ source.last)
    (hS : S s t) (halike : source.AlikeFor source' definitions (.ref rule) mode.newlines i)
    (hbody : ∀ body, definitions.body? rule = some body →
      s.memo[(⟨definitions.scope, rule, i, mode⟩ : Application)]? = none →
      t.memo[(⟨definitions.scope, rule, i, mode⟩ : Application)]? = none →
      L.Agree Escape S (definitions.invoke source limit levels rule mode i s)
        (definitions.invoke source' limit' levels' rule mode i t)) :
    L.Agree Escape S (definitions.invoke source limit levels rule mode i s)
      (definitions.invoke source' limit' levels' rule mode i t) := by
  have hmemo := h.recalled hS rule mode i hi halike
  generalize hs : s.memo[(⟨definitions.scope, rule, i, mode⟩ : Application)]? = a at hmemo
  generalize ht : t.memo[(⟨definitions.scope, rule, i, mode⟩ : Application)]? = b at hmemo
  cases hmemo with
  | some ho =>
      rw [Definitions.invoke_recall hs, Definitions.invoke_recall ht]
      exact .inr ⟨ho, hS⟩
  | none =>
      cases hsome : definitions.body? rule with
      | some body => exact hbody body hsome hs ht
      | none =>
          rw [Definitions.invoke_undefined hs hsome, Definitions.invoke_undefined ht hsome]
          exact .inr ⟨.undefinedRule, hS⟩

/-- Two runs with memos keep in step, unless the first one has less room and reaches its limit. -/
theorem invoke_inStep (h : L.Remembers definitions S) (Escape : Abort → Prop) {limit limit' : Nat} :
    ∀ {levels levels' : Nat}, levels ≤ levels' →
      (∀ f : Failure, f.reason = .depthLimit limit → Escape (.fatal f)) ∨
        levels = levels' ∧ limit = limit' →
      ∀ rule, L.InStep definitions Escape S (.ref rule)
        (definitions.invoke source limit levels rule)
        (definitions.invoke source' limit' levels' rule) := by
  intro levels
  induction levels with
  | zero =>
      intro levels' _ hescape rule mode i s t hi hS halike
      apply h.agree_invoke hi hS halike
      intro body hbody hs ht
      rw [Definitions.invoke_zero hs hbody]
      -- the first run is at its limit; the second one is there too unless it has more room
      rcases hescape with hescape | ⟨rfl, rfl⟩
      · exact .inl ⟨_, rfl, hescape _ rfl⟩
      · rw [Definitions.invoke_zero ht hbody]
        exact L.agree_fail h.keeps _ mode i hS
  | succ levels ih =>
      intro levels' hle hescape rule mode i s t hi hS halike
      obtain ⟨levels', rfl⟩ : ∃ n, levels' = n + 1 := ⟨levels' - 1, by omega⟩
      apply h.agree_invoke hi hS halike
      intro body hbody hs ht
      have hle : levels ≤ levels' := by omega
      have hrun := L.run_inStep h.keeps (limit - levels) (limit' - levels')
        (fun rule mode i s _ hi hS =>
          (rule.run_invoke_sound source definitions limit levels _ mode i s hi (h.truthful hS)).2)
        (ih hle (hescape.imp id fun h => ⟨by omega, h.2⟩)) body mode i s t hi hS
        fun _ _ _ hv => halike _ _ _ (.ref hbody hv)
      -- what is stored has to be true, also where the tokens look alike later on
      have hexplained := (body.run_invoke_sound source definitions limit levels
        (limit - levels) mode i s hi (h.truthful hS)).2.ref hbody
      rw [Definitions.invoke_body hs hbody, Definitions.invoke_body ht hbody]
      exact hrun.imp id fun hboth => ⟨hboth.1, h.remembered hboth.2 hexplained hboth.1⟩

/-- Two runs of a rule with memos, the first one with no more room than the second. -/
theorem run_inStep (h : L.Remembers definitions S) (Escape : Abort → Prop) (limit limit' : Nat)
    {levels levels' : Nat} (hle : levels ≤ levels')
    (hescape : (∀ f : Failure, f.reason = .depthLimit limit → Escape (.fatal f)) ∨
      levels = levels' ∧ limit = limit') (depth depth' : Nat) (rule : Rule κ) :
    L.InStep definitions Escape S rule
      (rule.run source depth (definitions.invoke source limit levels))
      (rule.run source' depth' (definitions.invoke source' limit' levels')) :=
  L.run_inStep h.keeps depth depth'
    (fun rule mode i s _ hi hS =>
      (rule.run_invoke_sound source definitions limit levels depth mode i s hi (h.truthful hS)).2)
    (h.invoke_inStep Escape hle hescape) rule

end Remembers

theorem run_invoke_inStep (Escape : Abort → Prop) (limit limit' : Nat) {levels levels' : Nat}
    (hle : levels ≤ levels') (hescape : (∀ f : Failure, f.reason = .depthLimit limit →
      Escape (.fatal f)) ∨ levels = levels' ∧ limit = limit') (depth depth' : Nat) (rule : Rule κ) :
    L.InStep definitions Escape (L.Shared definitions) rule
      (rule.run source depth (definitions.invoke source limit levels))
      (rule.run source' depth' (definitions.invoke source' limit' levels')) :=
  L.shared_remembers.run_inStep Escape limit limit' hle hescape depth depth' rule

end Likeness
end AnnotationScan.Peg
