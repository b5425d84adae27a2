import AnnotationScan.Proofs.Peg.Reachable

/-!
# Calls of recursive rules

While a rule is applied it calls recursive rules, at its own token or behind tokens that it has
taken.  Beyond these calls a run does little: it notes failures, and it logs the traced parts that
it passes.  So an invariant of the ledger is kept by the run if the calls keep it, and the run stops
for no other cause than a call does, unless the rule raises a fatal failure by itself.
-/

namespace AnnotationScan.Peg

variable {κ σ : Type}

namespace Rule

/-- Whether a check succeeds on some part of the rule.  References are not followed. -/
def has (check : Rule κ → Bool) : Rule κ → Bool
  | .andThen first second => check (.andThen first second) || first.has check || second.has check
  | .orElse first second => check (.orElse first second) || first.has check || second.has check
  | .optional part => check (.optional part) || part.has check
  | .many part => check (.many part) || part.has check
  | .ahead part => check (.ahead part) || part.has check
  | .notAhead part => check (.notAhead part) || part.has check
  | .newlines count part => check (.newlines count part) || part.has check
  | .endPoint part => check (.endPoint part) || part.has check
  | .traced name part => check (.traced name part) || part.has check
  | rule => check rule

def isTracedAs (name : String) : Rule κ → Bool
  | .traced other _ => other == name
  | _ => false

def isFatal : Rule κ → Bool
  | .fail reason | .failNext reason => reason.isFatal
  | _ => false

end Rule

/-- The parse stops for a cause in `Escape`, or it goes on with a ledger that satisfies `P`. -/
def Proceeds (Escape : Abort → Prop) (P : σ → Prop) (x : Outcome × σ) : Prop :=
  (∃ cause, x.1 = .aborted cause ∧ Escape cause) ∨ x.1.isDecided = true ∧ P x.2

theorem Proceeds.of_isDecided {Escape : Abort → Prop} {P : σ → Prop} {x : Outcome × σ}
    (h : Proceeds Escape P x) (hx : x.1.isDecided = true) : P x.2 := by
  rcases h with ⟨cause, hcause, -⟩ | ⟨-, hP⟩
  · rw [hcause] at hx
    cases hx
  · exact hP

theorem Source.fail_proceeds [Ledger σ] {Escape : Abort → Prop} {P : σ → Prop}
    (hnote : ∀ s f, f.isFatal = false → P s → P (Ledger.note s f)) (source : Source κ)
    {reason : Reason}
    (hraise : reason.isFatal = true → ∀ f : Failure, f.isFatal = true → Escape (.fatal f))
    (mode : Mode) (i : Nat) {s : σ} (hs : P s) :
    Proceeds Escape P (source.fail reason mode i s) := by
  cases hr : reason.isFatal with
  | true =>
      left
      refine ⟨.fatal (source.failureAt reason i), ?_, hraise hr _ hr⟩
      rw [fail_fst, Outcome.ofFailure_eq_aborted hr]
  | false =>
      right
      constructor
      · rw [fail_fst, Outcome.ofFailure_eq_failed hr]
        rfl
      · unfold Source.fail
        dsimp only
        split
        · exact hs
        · exact hnote _ _ hr hs

theorem Source.repeated_proceeds {Escape : Abort → Prop} {P : σ → Prop} {matcher : Matcher σ}
    {mode : Mode} (good : Nat → Prop)
    (hpart : ∀ i s, good i → P s → Proceeds Escape P (matcher mode i s))
    (hmoves : ∀ i s v j t, good i → P s → matcher mode i s = (.matched v j, t) → j ≠ i → good j)
    (source : Source κ) (start : Nat) :
    ∀ (rounds i : Nat) (s : σ), good i → P s →
      Proceeds Escape P (source.repeated matcher mode start rounds i s) := by
  intro rounds
  induction rounds with
  | zero => exact fun i s _ hs => .inr ⟨rfl, hs⟩
  | succ rounds ih =>
      intro i s hi hs
      have h := hpart i s hi hs
      have hmoves := hmoves i s
      rw [Source.repeated]
      generalize matcher mode i s = x at h hmoves ⊢
      obtain ⟨o, t⟩ := x
      cases o with
      | matched v j =>
          have ht := h.of_isDecided rfl
          dsimp only
          split
          · exact .inr ⟨rfl, ht⟩
          · exact ih j t (hmoves v j t hi hs rfl ‹_›) ht
      | failed f => exact .inr ⟨rfl, h.of_isDecided rfl⟩
      | aborted cause => exact h

variable [Describe κ] {source : Source κ} {definitions : Definitions κ}

/-- `Calls source definitions r mode' j rule mode i`: while the rule is applied at the token `i` in
the mode `mode`, the recursive rule `r` is applied at the token `j` in the mode `mode'`. -/
inductive Calls (source : Source κ) (definitions : Definitions κ) (r : Nat) (mode' : Mode)
    (j : Nat) : Rule κ → Mode → Nat → Prop
  | here : Calls source definitions r mode' j (.ref r) mode' j
  | andThenFirst {first second : Rule κ} {mode : Mode} {i : Nat}
      (h : Calls source definitions r mode' j first mode i) :
      Calls source definitions r mode' j (.andThen first second) mode i
  | andThenSecond {first second : Rule κ} {mode : Mode} {i k d : Nat} {v : Span}
      (hfirst : Derives source definitions d first mode.newlines i (.matched v k))
      (h : Calls source definitions r mode' j second mode k) :
      Calls source definitions r mode' j (.andThen first second) mode i
  | orElseFirst {first second : Rule κ} {mode : Mode} {i : Nat}
      (h : Calls source definitions r mode' j first mode i) :
      Calls source definitions r mode' j (.orElse first second) mode i
  | orElseSecond {first second : Rule κ} {mode : Mode} {i d : Nat} {f : Failure}
      (hfirst : Derives source definitions d first mode.newlines i (.failed f))
      (h : Calls source definitions r mode' j second mode i) :
      Calls source definitions r mode' j (.orElse first second) mode i
  | optional {part : Rule κ} {mode : Mode} {i : Nat}
      (h : Calls source definitions r mode' j part mode i) :
      Calls source definitions r mode' j (.optional part) mode i
  | many {part : Rule κ} {mode : Mode} {i : Nat}
      (h : Calls source definitions r mode' j part mode i) :
      Calls source definitions r mode' j (.many part) mode i
  | manyMore {part : Rule κ} {mode : Mode} {i k d : Nat} {v : Span}
      (hpart : Derives source definitions d part mode.newlines i (.matched v k)) (hne : k ≠ i)
      (h : Calls source definitions r mode' j (.many part) mode k) :
      Calls source definitions r mode' j (.many part) mode i
  | ahead {part : Rule κ} {mode : Mode} {i : Nat}
      (h : Calls source definitions r mode' j part mode i) :
      Calls source definitions r mode' j (.ahead part) mode i
  | notAhead {part : Rule κ} {mode : Mode} {i : Nat}
      (h : Calls source definitions r mode' j part { mode with quiet := true } i) :
      Calls source definitions r mode' j (.notAhead part) mode i
  | newlines {count : Bool} {part : Rule κ} {mode : Mode} {i : Nat}
      (h : Calls source definitions r mode' j part { mode with newlines := count } i) :
      Calls source definitions r mode' j (.newlines count part) mode i
  | endPoint {part : Rule κ} {mode : Mode} {i : Nat}
      (h : Calls source definitions r mode' j part mode i) :
      Calls source definitions r mode' j (.endPoint part) mode i
  | traced {name : String} {part : Rule κ} {mode : Mode} {i : Nat}
      (h : Calls source definitions r mode' j part mode i) :
      Calls source definitions r mode' j (.traced name part) mode i

theorem Calls.bounds {r j i : Nat} {mode' mode : Mode} {rule : Rule κ}
    (h : Calls source definitions r mode' j rule mode i) (hi : i ≤ source.last) :
    i ≤ j ∧ j ≤ source.last := by
  induction h with
  | here => exact ⟨Nat.le_refl _, hi⟩
  | andThenSecond hfirst _ ih =>
      obtain ⟨hik, hk⟩ := hfirst.bounds hi _ rfl
      exact ⟨Nat.le_trans hik (ih hk).1, (ih hk).2⟩
  | manyMore hpart _ _ ih =>
      obtain ⟨hik, hk⟩ := hpart.bounds hi _ rfl
      exact ⟨Nat.le_trans hik (ih hk).1, (ih hk).2⟩
  | andThenFirst _ ih | orElseFirst _ ih | orElseSecond _ _ ih | optional _ ih | many _ ih
  | ahead _ ih | notAhead _ ih | newlines _ ih | endPoint _ ih | traced _ ih => exact ih hi

/-- The traced parts of a rule keep the invariant, and the parse may stop for its fatal failures. -/
structure Rule.Respects [Ledger σ] (Escape : Abort → Prop) (P : σ → Prop) (rule : Rule κ) :
    Prop where
  observe : ∀ s e, rule.has (isTracedAs e.rule) = true → P s → P (Ledger.observe s e)
  raise : rule.has isFatal = true → ∀ f : Failure, f.isFatal = true → Escape (.fatal f)

omit [Describe κ] in
theorem Rule.Respects.part [Ledger σ] {Escape : Abort → Prop} {P : σ → Prop} {rule part : Rule κ}
    (h : rule.Respects Escape P)
    (hpart : ∀ check, part.has check = true → rule.has check = true) : part.Respects Escape P where
  observe s e he := h.observe s e (hpart _ he)
  raise hfatal := h.raise (hpart _ hfatal)

/-- Where all calls proceed with an invariant, so does the run. -/
theorem Rule.run_proceeds [DecidableEq κ] [Ledger σ] {Escape : Abort → Prop} {P : σ → Prop}
    {call : Nat → Matcher σ} (depth : Nat)
    (hexplained : ∀ (rule : Rule κ) mode i s, i ≤ source.last → P s →
      Explained source definitions rule mode.newlines i (rule.run source depth call mode i s).1)
    (hnote : ∀ s f, f.isFatal = false → P s → P (Ledger.note s f)) (rule : Rule κ)
    (hrule : rule.Respects Escape P) :
    ∀ mode i s, i ≤ source.last → P s →
      (∀ r mode' j t, Calls source definitions r mode' j rule mode i → P t →
        Proceeds Escape P (call r mode' j t)) →
      Proceeds Escape P (rule.run source depth call mode i s) := by
  induction rule with
  | token kind | word | keyword text | lineBreak =>
      intro mode i s _ hs _
      rw [Rule.run]
      split
      · exact .inr ⟨rfl, hs⟩
      · exact source.fail_proceeds hnote (fun h => by cases h) mode i hs
  | nothing | any => exact fun _ _ _ _ hs _ => .inr ⟨rfl, hs⟩
  | fail reason | failNext reason =>
      exact fun mode i s _ hs _ => source.fail_proceeds hnote hrule.raise mode _ hs
  | andThen first second ihfirst ihsecond =>
      intro mode i s hi hs hcall
      have hx := ihfirst (hrule.part fun _ h => by simp [has, h]) mode i s hi hs
        fun r mode' j t hc => hcall r mode' j t hc.andThenFirst
      have he := hexplained first mode i s hi hs
      rw [Rule.run]
      generalize first.run source depth call mode i s = x at hx he ⊢
      obtain ⟨o, t⟩ := x
      cases o with
      | matched v k =>
          obtain ⟨d, hd⟩ := he
          have hy := ihsecond (hrule.part fun _ h => by simp [has, h]) mode k t
            (hd.bounds hi k rfl).2 (hx.of_isDecided rfl)
            fun r mode' j t hc => hcall r mode' j t (.andThenSecond hd hc)
          dsimp only
          generalize second.run source depth call mode k t = y at hy ⊢
          obtain ⟨o, u⟩ := y
          cases o with
          | matched w l => exact .inr ⟨rfl, hy.of_isDecided rfl⟩
          | failed f => exact hy
          | aborted cause => exact hy
      | failed f => exact hx
      | aborted cause => exact hx
  | orElse first second ihfirst ihsecond =>
      intro mode i s hi hs hcall
      have hx := ihfirst (hrule.part fun _ h => by simp [has, h]) mode i s hi hs
        fun r mode' j t hc => hcall r mode' j t hc.orElseFirst
      have he := hexplained first mode i s hi hs
      rw [Rule.run]
      generalize first.run source depth call mode i s = x at hx he ⊢
      obtain ⟨o, t⟩ := x
      cases o with
      | matched v k => exact hx
      | failed f =>
          obtain ⟨d, hd⟩ := he
          have hy := ihsecond (hrule.part fun _ h => by simp [has, h]) mode i t hi
            (hx.of_isDecided rfl) fun r mode' j t hc => hcall r mode' j t (.orElseSecond hd hc)
          dsimp only
          generalize second.run source depth call mode i t = y at hy ⊢
          obtain ⟨o, u⟩ := y
          cases o with
          | matched w l => exact hy
          | failed g => exact .inr ⟨rfl, hy.of_isDecided rfl⟩
          | aborted cause => exact hy
      | aborted cause => exact hx
  | many part ih =>
      intro mode i s hi hs hcall
      have ih := ih (hrule.part fun _ h => by simp [has, h])
      -- wherever a round starts, its calls are calls of the whole repetition
      refine Source.repeated_proceeds (fun i => i ≤ source.last ∧ ∀ r mode' j t,
          Calls source definitions r mode' j (.many part) mode i → P t →
            Proceeds Escape P (call r mode' j t))
        (fun i s hi hs => ih mode i s hi.1 hs fun r mode' j t hc => hi.2 r mode' j t hc.many)
        (fun i s v k t hi hs hx hne => ?_) source i _ i s ⟨hi, hcall⟩ hs
      have he := hexplained part mode i s hi.1 hs
      rw [hx] at he
      obtain ⟨d, hd⟩ := he
      exact ⟨(hd.bounds hi.1 k rfl).2, fun r mode' j t hc => hi.2 r mode' j t (.manyMore hd hne hc)⟩
  | optional part ih | ahead part ih | endPoint part ih =>
      intro mode i s hi hs hcall
      have hx := ih (hrule.part fun _ h => by simp [has, h]) mode i s hi hs
        fun r mode' j t hc => hcall r mode' j t (by constructor; exact hc)
      rw [Rule.run]
      generalize part.run source depth call mode i s = x at hx ⊢
      obtain ⟨o, t⟩ := x
      cases o with
      | matched v k => exact .inr ⟨rfl, hx.of_isDecided rfl⟩
      | failed f => exact .inr ⟨rfl, hx.of_isDecided rfl⟩
      | aborted cause => exact hx
  | notAhead part ih =>
      intro mode i s hi hs hcall
      have hx := ih (hrule.part fun _ h => by simp [has, h]) { mode with quiet := true } i s hi hs
        fun r mode' j t hc => hcall r mode' j t hc.notAhead
      rw [Rule.run]
      generalize part.run source depth call { mode with quiet := true } i s = x at hx ⊢
      obtain ⟨o, t⟩ := x
      cases o with
      | matched v k =>
          exact source.fail_proceeds hnote (fun h => by cases h) mode i (hx.of_isDecided rfl)
      | failed f => exact .inr ⟨rfl, hx.of_isDecided rfl⟩
      | aborted cause => exact hx
  | newlines count part ih =>
      intro mode i s hi hs hcall
      exact ih (hrule.part fun _ h => by simp [has, h]) { mode with newlines := count } i s hi hs
        fun r mode' j t hc => hcall r mode' j t hc.newlines
  | traced name part ih =>
      intro mode i s hi hs hcall
      have hx := ih (hrule.part fun _ h => by simp [has, h]) mode i s hi hs
        fun r mode' j t hc => hcall r mode' j t hc.traced
      rw [Rule.run]
      exact hx.imp id fun h => ⟨h.1, hrule.observe _ _ (by simp [has, isTracedAs]) h.2⟩
  | ref r => exact fun mode i s _ hs hcall => hcall r mode i s .here hs

/-- A recursive rule proceeds if it is no reason to stop and the run of its body proceeds. -/
theorem Definitions.proceeds_invoke [DecidableEq κ] {Escape : Abort → Prop} {P : State → Prop}
    {limit levels r i : Nat} {mode : Mode} {s : State} (hi : i ≤ source.last)
    (htruthful : s.Truthful source definitions) (hs : P s)
    (hundefined : definitions.body? r = none → ∀ name, Escape (.undefinedRule name))
    (hlimited : levels = 0 → ∀ f : Failure, f.isFatal = true → Escape (.fatal f))
    (hrun : ∀ body fewer, definitions.body? r = some body → levels = fewer + 1 →
      (⟨definitions.scope, r, i, mode⟩ : Application) ∉ s.memo →
        let x := body.run source (limit - fewer) (definitions.invoke source limit fewer) mode i s
        Proceeds Escape P (x.1, x.2.remember ⟨definitions.scope, r, i, mode⟩ x.1)) :
    Proceeds Escape P (definitions.invoke source limit levels r mode i s) := by
  apply Definitions.invoke_cases
  · intro o hmemo
    obtain ⟨d, hd⟩ := htruthful _ o hmemo rfl hi
    exact .inr ⟨hd.isDecided, hs⟩
  · exact fun _ hbody => .inl ⟨_, rfl, hundefined hbody _⟩
  · exact fun _ _ _ hlevels => .inl ⟨_, rfl, hlimited hlevels _ rfl⟩
  · intro body fewer hmemo hbody hlevels
    apply hrun body fewer hbody hlevels
    rw [Std.TreeMap.mem_iff_isSome_getElem?, hmemo]
    exact Bool.false_ne_true

/-- An invariant of the state that every call keeps which is `Good`: made with enough levels left,
at the right token, or whatever else is needed.  Calls that good ones make are good again. -/
structure Definitions.Keeps (definitions : Definitions κ) (source : Source κ) (limit : Nat)
    (Good : (levels rule : Nat) → Mode → (index : Nat) → Prop) (Escape : Abort → Prop)
    (P : State → Prop) : Prop where
  note : ∀ s f, f.isFatal = false → P s → P (s.note f)
  observe : ∀ s e, P s → P (s.observe e)
  remember : ∀ levels r mode i s o, Good levels r mode i → P s →
    P (s.remember ⟨definitions.scope, r, i, mode⟩ o)
  undefined : ∀ levels r mode i, Good levels r mode i → definitions.body? r = none →
    ∀ name, Escape (.undefinedRule name)
  limited : ∀ r mode i, Good 0 r mode i → ∀ f : Failure, f.isFatal = true → Escape (.fatal f)
  fatal : ∀ levels r mode i body, Good (levels + 1) r mode i → definitions.body? r = some body →
    body.has Rule.isFatal = true → ∀ f : Failure, f.isFatal = true → Escape (.fatal f)
  calls : ∀ levels r mode i body, Good (levels + 1) r mode i → definitions.body? r = some body →
    i ≤ source.last → ∀ r' mode' j, Calls source definitions r' mode' j body mode i →
      Good levels r' mode' j

namespace Definitions.Keeps

variable [DecidableEq κ] {limit : Nat} {Good : (levels rule : Nat) → Mode → (index : Nat) → Prop}
  {Escape : Abort → Prop} {P : State → Prop}

theorem run_proceeds (h : definitions.Keeps source limit Good Escape P) {levels : Nat}
    (hinvoke : ∀ r mode i s, i ≤ source.last → Good levels r mode i →
      s.Truthful source definitions ∧ P s →
      Proceeds Escape (fun s => s.Truthful source definitions ∧ P s)
        (definitions.invoke source limit levels r mode i s))
    (depth : Nat) (rule : Rule κ)
    (hraise : rule.has Rule.isFatal = true → ∀ f : Failure, f.isFatal = true → Escape (.fatal f))
    (mode : Mode) {i : Nat} {s : State} (hi : i ≤ source.last)
    (hcalls : ∀ r mode' j, Calls source definitions r mode' j rule mode i → Good levels r mode' j)
    (hs : s.Truthful source definitions ∧ P s) :
    Proceeds Escape (fun s => s.Truthful source definitions ∧ P s)
      (rule.run source depth (definitions.invoke source limit levels) mode i s) := by
  apply Rule.run_proceeds depth
  · intro rule mode i s hi hs
    exact (rule.run_invoke_sound source definitions limit levels depth mode i s hi hs.1).2
  · exact fun s f hf hs => ⟨hs.1.note f, h.note s f hf hs.2⟩
  · exact ⟨fun s e _ hs => ⟨hs.1.observe e, h.observe s e hs.2⟩, hraise⟩
  · exact hi
  · exact hs
  · intro r mode' j t hc ht
    exact hinvoke r mode' j t (hc.bounds hi).2 (hcalls r mode' j hc) ht

theorem invoke_proceeds (h : definitions.Keeps source limit Good Escape P) (levels : Nat) :
    ∀ r mode i s, i ≤ source.last → Good levels r mode i →
      s.Truthful source definitions ∧ P s →
      Proceeds Escape (fun s => s.Truthful source definitions ∧ P s)
        (definitions.invoke source limit levels r mode i s) := by
  induction levels with
  | zero =>
      intro r mode i s hi hgood hs
      apply Definitions.proceeds_invoke hi hs.1 hs
      · exact h.undefined 0 r mode i hgood
      · exact fun _ => h.limited r mode i hgood
      · exact fun _ _ _ hlevels => nomatch hlevels
  | succ levels ih =>
      intro r mode i s hi hgood hs
      apply Definitions.proceeds_invoke hi hs.1 hs
      · exact h.undefined _ r mode i hgood
      · exact fun hlevels => nomatch hlevels
      · rintro body _ hbody ⟨⟩ -
        have hrun := h.run_proceeds ih (limit - levels) body
          (h.fatal levels r mode i body hgood hbody) mode hi
          (h.calls levels r mode i body hgood hbody hi) hs
        have hexplained := ((body.run_invoke_sound source definitions limit levels
          (limit - levels) mode i s hi hs.1).2).ref hbody
        refine hrun.imp id fun hdone => ⟨hdone.1, ?_, ?_⟩
        · exact hdone.2.1.remember hexplained
        · exact h.remember _ r mode i _ _ hgood hdone.2.2

end Definitions.Keeps

theorem Cursor.AtRest.parse_proceeds [DecidableEq κ] {cursor : Cursor κ}
    (h : cursor.AtRest source definitions)
    {Good : (levels rule : Nat) → Mode → (index : Nat) → Prop} {Escape : Abort → Prop}
    {P : State → Prop} (hkeeps : definitions.Keeps source cursor.maxDepth Good Escape P)
    (rule : Rule κ)
    (hraise : rule.has Rule.isFatal = true → ∀ f : Failure, f.isFatal = true → Escape (.fatal f))
    (hcalls : ∀ r mode' j, Calls source definitions r mode' j rule {} cursor.index →
      Good cursor.maxDepth r mode' j)
    (hP : P cursor.state) :
    let parsed := cursor.parse definitions rule
    Proceeds Escape P (parsed.1, parsed.2.state) := by
  have hrun := hkeeps.run_proceeds (hkeeps.invoke_proceeds cursor.maxDepth) 0 rule hraise {}
    h.index_le hcalls ⟨h.truthful, hP⟩
  rw [h.parse_eq]
  exact hrun.imp id fun hdone => ⟨hdone.1, hdone.2.2⟩

end AnnotationScan.Peg
