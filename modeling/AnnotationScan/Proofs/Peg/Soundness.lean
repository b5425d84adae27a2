import AnnotationScan.Proofs.Peg.Derivation

/-!
# Soundness of applying rules

`Rule.run` leaves open what a reference does.  If the outcomes of references are derivable, so are
those of every rule, and what references keep true of the ledger stays true throughout.  A parse that
stops says nothing about the rule.
-/

namespace AnnotationScan.Peg

namespace Outcome

/-- Whether the rule matches or does not match, so that the parse goes on. -/
def isDecided : Outcome → Bool
  | .aborted _ => false
  | _ => true

theorem ofFailure_eq_failed {f : Failure} (h : f.reason.isFatal = false) :
    ofFailure f = .failed f := by
  simp [ofFailure, Failure.isFatal, h]

theorem ofFailure_eq_aborted {f : Failure} (h : f.reason.isFatal = true) :
    ofFailure f = .aborted (.fatal f) := by
  simp [ofFailure, Failure.isFatal, h]

end Outcome

/-- Whether a parse stops for the reason that it gives: a failure that stops it is fatal. -/
def Abort.Genuine : Abort → Prop
  | .fatal failure => failure.isFatal = true
  | .undefinedRule _ => True

variable {κ σ : Type}

@[simp] theorem Source.fail_fst [Ledger σ] (source : Source κ) (reason : Reason) (mode : Mode)
    (i : Nat) (s : σ) :
    (source.fail reason mode i s).1 = .ofFailure (source.failureAt reason i) := rfl

theorem Source.fail_inv [Ledger σ] {Inv : σ → Prop} (hnote : ∀ s f, Inv s → Inv (Ledger.note s f))
    (source : Source κ) (reason : Reason) (mode : Mode) (i : Nat) {s : σ} (hs : Inv s) :
    Inv (source.fail reason mode i s).2 := by
  unfold Source.fail
  dsimp only
  split
  · exact hs
  · exact hnote _ _ hs

variable [Describe κ]

/-- What may come of a rule: an outcome that is derivable, or a genuine end of the parse. -/
def Explained (source : Source κ) (definitions : Definitions κ) (rule : Rule κ) (newlines : Bool)
    (index : Nat) : Outcome → Prop
  | .aborted cause => cause.Genuine
  | outcome => ∃ nesting, Derives source definitions nesting rule newlines index outcome

/-- The matcher does to tokens what the rule says, and keeps an invariant of the ledger. -/
def Sound (source : Source κ) (definitions : Definitions κ) (Inv : σ → Prop) (rule : Rule κ)
    (matcher : Matcher σ) : Prop :=
  ∀ mode i s, i ≤ source.last → Inv s → Inv (matcher mode i s).2 ∧
    Explained source definitions rule mode.newlines i (matcher mode i s).1

variable {source : Source κ} {definitions : Definitions κ} {Inv : σ → Prop}

theorem Explained.imp {rule rule' : Rule κ} {m m' : Bool} {i : Nat} {o : Outcome}
    (h : Explained source definitions rule m i o)
    (himp : ∀ d, Derives source definitions d rule m i o →
      ∃ e, Derives source definitions e rule' m' i o) :
    Explained source definitions rule' m' i o := by
  cases o with
  | matched v j | failed f =>
      obtain ⟨d, hd⟩ := h
      exact himp d hd
  | aborted cause => exact h

theorem Sound.cases {rule : Rule κ} {matcher : Matcher σ}
    (h : Sound source definitions Inv rule matcher) (mode : Mode) {i : Nat} {s : σ}
    (hi : i ≤ source.last) (hs : Inv s) :
    (∃ v j t d, matcher mode i s = (.matched v j, t) ∧ Inv t ∧
      Derives source definitions d rule mode.newlines i (.matched v j)) ∨
    (∃ f t d, matcher mode i s = (.failed f, t) ∧ Inv t ∧
      Derives source definitions d rule mode.newlines i (.failed f)) ∨
    ∃ cause t, matcher mode i s = (.aborted cause, t) ∧ Inv t ∧ cause.Genuine := by
  have h := h mode i s hi hs
  generalize matcher mode i s = x at h ⊢
  obtain ⟨o, t⟩ := x
  obtain ⟨ht, he⟩ := h
  cases o with
  | matched v j =>
      obtain ⟨d, hd⟩ := he
      exact .inl ⟨v, j, t, d, rfl, ht, hd⟩
  | failed f =>
      obtain ⟨d, hd⟩ := he
      exact .inr (.inl ⟨f, t, d, rfl, ht, hd⟩)
  | aborted cause => exact .inr (.inr ⟨cause, t, rfl, ht, he⟩)

theorem Source.fail_sound [Ledger σ] (hnote : ∀ s f, Inv s → Inv (Ledger.note s f))
    {rule : Rule κ} {m : Bool} {i j : Nat} {reason : Reason}
    (h : reason.isFatal = false → ∃ d, Derives source definitions d rule m i
      (.failed (source.failureAt reason j))) (mode : Mode) {s : σ} (hs : Inv s) :
    Inv (source.fail reason mode j s).2 ∧
      Explained source definitions rule m i (source.fail reason mode j s).1 := by
  refine ⟨source.fail_inv hnote reason mode j hs, ?_⟩
  rw [fail_fst]
  cases hr : reason.isFatal with
  | false =>
      rw [Outcome.ofFailure_eq_failed hr]
      exact h hr
  | true =>
      rw [Outcome.ofFailure_eq_aborted hr]
      exact hr

/-- A repetition is sound if there are more rounds than tokens left: it never runs out of them. -/
theorem Source.repeated_sound {part : Rule κ} {matcher : Matcher σ}
    (hpart : Sound source definitions Inv part matcher) (mode : Mode) (start : Nat) :
    ∀ (rounds i : Nat) (s : σ), source.last - i < rounds → i ≤ source.last → Inv s →
      Inv (source.repeated matcher mode start rounds i s).2 ∧
        match (source.repeated matcher mode start rounds i s).1 with
        | .aborted cause => cause.Genuine
        | outcome => ∃ j d, outcome = source.reach start j ∧
            Derives source definitions d (.many part) mode.newlines i (source.reach i j) := by
  intro rounds
  induction rounds with
  | zero =>
      intro i s hr
      omega
  | succ rounds ih =>
      intro i s hr hi hs
      rw [Source.repeated]
      obtain ⟨v, j, t, d, hx, ht, hd⟩ | ⟨f, t, d, hx, ht, hd⟩ | ⟨cause, t, hx, ht, hcause⟩ :=
        hpart.cases mode hi hs
      all_goals rw [hx]
      · obtain ⟨hij, hj⟩ := hd.bounds hi j rfl
        -- a round that consumes nothing ends the repetition, so it never uses up its rounds
        by_cases hji : j = i
        · subst hji
          simp only [if_true]
          exact ⟨ht, j, d, rfl, .manyIdle hd⟩
        · simp only [hji, if_false]
          have hrest := ih j t (by omega) hj ht
          refine ⟨hrest.1, ?_⟩
          revert hrest
          cases (source.repeated matcher mode start rounds j t).1 with
          | aborted cause => exact fun hrest => hrest.2
          | matched w k =>
              rintro ⟨-, k', e, hk, he⟩
              exact ⟨k', max d e, hk, .manyMore hd hji he⟩
          | failed f =>
              rintro ⟨-, k', e, hk, -⟩
              cases hk
      · exact ⟨ht, i, d, rfl, .manyNone hd⟩
      · exact ⟨ht, hcause⟩

/-- Soundness of references is soundness of all rules. -/
theorem Rule.run_sound [DecidableEq κ] [Ledger σ]
    (hnote : ∀ s f, Inv s → Inv (Ledger.note s f))
    (hobserve : ∀ s e, Inv s → Inv (Ledger.observe s e)) {call : Nat → Matcher σ}
    (hcall : ∀ r, Sound source definitions Inv (.ref r) (call r)) (depth : Nat) (rule : Rule κ) :
    Sound source definitions Inv rule (rule.run source depth call) := by
  -- a part answers with a derivation of its own, and the operator puts these together
  induction rule with
  | token kind =>
      intro mode i s _ hs
      rw [Rule.run]
      split
      case isTrue h => exact ⟨hs, 0, .token h⟩
      case isFalse h => exact source.fail_sound hnote (fun _ => ⟨0, .noToken h⟩) mode hs
  | word =>
      intro mode i s _ hs
      rw [Rule.run]
      split
      case isTrue h => exact ⟨hs, 0, .word h⟩
      case isFalse h =>
        exact source.fail_sound hnote (fun _ => ⟨0, .noWord (Bool.eq_false_iff.2 h)⟩) mode hs
  | keyword text =>
      intro mode i s _ hs
      rw [Rule.run]
      split
      case isTrue h => exact ⟨hs, 0, .keyword (by simpa using h)⟩
      case isFalse h =>
        exact source.fail_sound hnote (fun _ => ⟨0, .noKeyword (by simpa using h)⟩) mode hs
  | nothing => exact fun _ _ _ _ hs => ⟨hs, 0, .nothing⟩
  | andThen first second ihfirst ihsecond =>
      intro mode i s hi hs
      rw [Rule.run]
      obtain ⟨v, j, t, d, hx, ht, hd⟩ | ⟨f, t, d, hx, ht, hd⟩ | ⟨cause, t, hx, ht, hcause⟩ :=
        ihfirst.cases mode hi hs
      all_goals rw [hx]
      · dsimp only
        obtain ⟨w, k, u, e, hy, hu, he⟩ | ⟨f, u, e, hy, hu, he⟩ | ⟨cause, u, hy, hu, hcause⟩ :=
          ihsecond.cases mode (hd.bounds hi j rfl).2 ht
        all_goals rw [hy]
        · exact ⟨hu, max d e, .andThen hd he⟩
        · exact ⟨hu, max d e, .andThenSecond hd he⟩
        · exact ⟨hu, hcause⟩
      · exact ⟨ht, d, .andThenFirst hd⟩
      · exact ⟨ht, hcause⟩
  | orElse first second ihfirst ihsecond =>
      intro mode i s hi hs
      rw [Rule.run]
      obtain ⟨v, j, t, d, hx, ht, hd⟩ | ⟨f, t, d, hx, ht, hd⟩ | ⟨cause, t, hx, ht, hcause⟩ :=
        ihfirst.cases mode hi hs
      all_goals rw [hx]
      · exact ⟨ht, d, .orElseFirst hd⟩
      · dsimp only
        obtain ⟨w, k, u, e, hy, hu, he⟩ | ⟨g, u, e, hy, hu, he⟩ | ⟨cause, u, hy, hu, hcause⟩ :=
          ihsecond.cases mode hi ht
        all_goals rw [hy]
        · exact ⟨hu, max d e, .orElseSecond hd he⟩
        · exact ⟨hu, max d e, .orElseNeither hd he⟩
        · exact ⟨hu, hcause⟩
      · exact ⟨ht, hcause⟩
  | optional part ih =>
      intro mode i s hi hs
      rw [Rule.run]
      obtain ⟨v, j, t, d, hx, ht, hd⟩ | ⟨f, t, d, hx, ht, hd⟩ | ⟨cause, t, hx, ht, hcause⟩ :=
        ih.cases mode hi hs
      all_goals rw [hx]
      · exact ⟨ht, d, .optional hd⟩
      · exact ⟨ht, d, .optionalNone hd⟩
      · exact ⟨ht, hcause⟩
  | many part ih =>
      intro mode i s hi hs
      have h := source.repeated_sound ih mode i _ i s (Nat.lt_succ_self (source.last - i)) hi hs
      rw [Rule.run]
      generalize source.repeated _ mode i (source.last - i + 1) i s = x at h ⊢
      obtain ⟨o, t⟩ := x
      obtain ⟨ht, he⟩ := h
      cases o with
      | matched v j =>
          obtain ⟨k, d, hk, hd⟩ := he
          exact ⟨ht, d, hk ▸ hd⟩
      | failed f =>
          obtain ⟨k, d, hk, -⟩ := he
          cases hk
      | aborted cause => exact ⟨ht, he⟩
  | ahead part ih =>
      intro mode i s hi hs
      rw [Rule.run]
      obtain ⟨v, j, t, d, hx, ht, hd⟩ | ⟨f, t, d, hx, ht, hd⟩ | ⟨cause, t, hx, ht, hcause⟩ :=
        ih.cases mode hi hs
      all_goals rw [hx]
      · exact ⟨ht, d, .ahead hd⟩
      · exact ⟨ht, d, .aheadNone hd⟩
      · exact ⟨ht, hcause⟩
  | notAhead part ih =>
      intro mode i s hi hs
      rw [Rule.run]
      obtain ⟨v, j, t, d, hx, ht, hd⟩ | ⟨f, t, d, hx, ht, hd⟩ | ⟨cause, t, hx, ht, hcause⟩ :=
        ih.cases { mode with quiet := true } hi hs
      all_goals rw [hx]
      · exact source.fail_sound hnote (fun _ => ⟨d, .notAheadSome hd⟩) mode ht
      · exact ⟨ht, d, .notAhead hd⟩
      · exact ⟨ht, hcause⟩
  | lineBreak =>
      intro mode i s _ hs
      rw [Rule.run]
      split
      case isTrue h =>
        obtain ⟨hm, hl⟩ := (Bool.and_eq_true _ _).mp h
        exact ⟨hs, 0, hm ▸ .lineBreak hl⟩
      case isFalse h =>
        exact source.fail_sound hnote (fun _ => ⟨0, .noLineBreak (Bool.eq_false_iff.2 h)⟩) mode hs
  | newlines count part ih =>
      intro mode i s hi hs
      obtain ⟨ht, he⟩ := ih { mode with newlines := count } i s hi hs
      exact ⟨ht, he.imp fun d hd => ⟨d, .newlines hd⟩⟩
  | fail reason =>
      intro mode i s _ hs
      exact source.fail_sound hnote (fun hr => ⟨0, .fail hr⟩) mode hs
  | any => exact fun _ _ _ _ hs => ⟨hs, 0, .any⟩
  | failNext reason =>
      intro mode i s _ hs
      exact source.fail_sound hnote (fun hr => ⟨0, .failNext hr⟩) mode hs
  | endPoint part ih =>
      intro mode i s hi hs
      rw [Rule.run]
      obtain ⟨v, j, t, d, hx, ht, hd⟩ | ⟨f, t, d, hx, ht, hd⟩ | ⟨cause, t, hx, ht, hcause⟩ :=
        ih.cases mode hi hs
      all_goals rw [hx]
      · exact ⟨ht, d, .endPoint hd⟩
      · exact ⟨ht, d, .endPointNone hd⟩
      · exact ⟨ht, hcause⟩
  | traced name part ih =>
      intro mode i s hi hs
      obtain ⟨ht, he⟩ := ih mode i s hi hs
      exact ⟨hobserve _ _ ht, he.imp fun d hd => ⟨d, .traced hd⟩⟩
  | ref r =>
      intro mode i s hi hs
      exact hcall r mode i s hi hs

end AnnotationScan.Peg
