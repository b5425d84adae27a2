import AnnotationScan.Proofs.Peg.Soundness

/-!
# Runs in lockstep

A rule is run twice, on two sources and with two ledgers.  If the tokens look alike wherever a part
of the rule is attempted, both runs take the same decisions: they end behind the same token or fail
for the same reason at the same token, unless the first run stops for a reason that was agreed on
beforehand.  What is common to the two ledgers stays common to them.
-/

namespace AnnotationScan.Peg

variable {κ σ τ : Type} [Describe κ]

/-- `Visits source definitions part count place rule newlines index`: while the rule is applied at
the token `index` with line breaks counting or not, a part of it is attempted at the token `place`
with line breaks counting as `count` tells. -/
inductive Visits (source : Source κ) (definitions : Definitions κ) (part : Rule κ) (count : Bool)
    (place : Nat) : Rule κ → (newlines : Bool) → (index : Nat) → Prop
  | here : Visits source definitions part count place part count place
  | andThenFirst {first second : Rule κ} {m : Bool} {i : Nat}
      (h : Visits source definitions part count place first m i) :
      Visits source definitions part count place (.andThen first second) m i
  | andThenSecond {first second : Rule κ} {m : Bool} {i j d : Nat} {v : Span}
      (hfirst : Derives source definitions d first m i (.matched v j))
      (h : Visits source definitions part count place second m j) :
      Visits source definitions part count place (.andThen first second) m i
  | orElseFirst {first second : Rule κ} {m : Bool} {i : Nat}
      (h : Visits source definitions part count place first m i) :
      Visits source definitions part count place (.orElse first second) m i
  | orElseSecond {first second : Rule κ} {m : Bool} {i d : Nat} {f : Failure}
      (hfirst : Derives source definitions d first m i (.failed f))
      (h : Visits source definitions part count place second m i) :
      Visits source definitions part count place (.orElse first second) m i
  | optional {inner : Rule κ} {m : Bool} {i : Nat}
      (h : Visits source definitions part count place inner m i) :
      Visits source definitions part count place (.optional inner) m i
  | many {inner : Rule κ} {m : Bool} {i : Nat}
      (h : Visits source definitions part count place inner m i) :
      Visits source definitions part count place (.many inner) m i
  | manyMore {inner : Rule κ} {m : Bool} {i j d : Nat} {v : Span}
      (hinner : Derives source definitions d inner m i (.matched v j)) (hne : j ≠ i)
      (h : Visits source definitions part count place (.many inner) m j) :
      Visits source definitions part count place (.many inner) m i
  | ahead {inner : Rule κ} {m : Bool} {i : Nat}
      (h : Visits source definitions part count place inner m i) :
      Visits source definitions part count place (.ahead inner) m i
  | notAhead {inner : Rule κ} {m : Bool} {i : Nat}
      (h : Visits source definitions part count place inner m i) :
      Visits source definitions part count place (.notAhead inner) m i
  | newlines {flag : Bool} {inner : Rule κ} {m : Bool} {i : Nat}
      (h : Visits source definitions part count place inner flag i) :
      Visits source definitions part count place (.newlines flag inner) m i
  | endPoint {inner : Rule κ} {m : Bool} {i : Nat}
      (h : Visits source definitions part count place inner m i) :
      Visits source definitions part count place (.endPoint inner) m i
  | traced {name : String} {inner : Rule κ} {m : Bool} {i : Nat}
      (h : Visits source definitions part count place inner m i) :
      Visits source definitions part count place (.traced name inner) m i
  | ref {rule : Nat} {body : Rule κ} {m : Bool} {i : Nat}
      (hbody : definitions.body? rule = some body)
      (h : Visits source definitions part count place body m i) :
      Visits source definitions part count place (.ref rule) m i

theorem Visits.bounds {source : Source κ} {definitions : Definitions κ} {part rule : Rule κ}
    {count m : Bool} {place i : Nat} (h : Visits source definitions part count place rule m i)
    (hi : i ≤ source.last) : i ≤ place ∧ place ≤ source.last := by
  induction h with
  | here => exact ⟨Nat.le_refl _, hi⟩
  | andThenSecond hfirst _ ih =>
      obtain ⟨hij, hj⟩ := hfirst.bounds hi _ rfl
      exact ⟨Nat.le_trans hij (ih hj).1, (ih hj).2⟩
  | manyMore hinner _ _ ih =>
      obtain ⟨hij, hj⟩ := hinner.bounds hi _ rfl
      exact ⟨Nat.le_trans hij (ih hj).1, (ih hj).2⟩
  | andThenFirst _ ih | orElseFirst _ ih | orElseSecond _ _ ih | optional _ ih | many _ ih
  | ahead _ ih | notAhead _ ih | newlines _ ih | endPoint _ ih | traced _ ih | ref _ _ ih =>
      exact ih hi

/-- A token looks alike in two sources when a part of a rule is attempted there. -/
structure Source.Alike (source source' : Source κ) (part : Rule κ) (newlines : Bool)
    (index : Nat) : Prop where
  inside : index ≤ source'.last
  next : source.next index = source'.next index
  kind : (source.lexeme index).kind = (source'.lexeme index).kind
  isWord : (source.lexeme index).isWord = (source'.lexeme index).isWord
  text : ∀ text, part = .keyword text → (source.lexeme index).isWord = true →
    ((source.lexeme index).text = text ↔ (source'.lexeme index).text = text)
  newlineBefore : part = .lineBreak → newlines = true →
    (source.lexeme index).newlineBefore = (source'.lexeme index).newlineBefore

/-- The tokens look alike in two sources wherever a part of a rule is attempted. -/
def Source.AlikeFor (source source' : Source κ) (definitions : Definitions κ) (rule : Rule κ)
    (newlines : Bool) (index : Nat) : Prop :=
  ∀ part count place, Visits source definitions part count place rule newlines index →
    source.Alike source' part count place

theorem Source.alikeFor_self (source : Source κ) (definitions : Definitions κ) (rule : Rule κ)
    (newlines : Bool) {index : Nat} (hindex : index ≤ source.last) :
    source.AlikeFor source definitions rule newlines index := fun _ _ _ h =>
  ⟨(h.bounds hindex).2, rfl, rfl, rfl, fun _ _ _ => Iff.rfl, fun _ _ => rfl⟩

/-- Of a failure and the best one before it, the one that tells more. -/
def Failure.better (failure : Failure) : Option Failure → Failure
  | none => failure
  | some best => if failure.outranks best then failure else best

theorem State.furthest_note (s : State) (f : Failure) :
    (s.note f).furthest = some (f.better s.furthest) := by
  unfold State.note Failure.better
  cases hs : s.furthest with
  | none => rfl
  | some best =>
      dsimp only
      split
      · rfl
      · exact hs

/-- Which failures and which values of two runs correspond to each other. -/
structure Likeness (source source' : Source κ) where
  failure : Failure → Failure → Prop
  value : Span → Span → Prop
  failureAt : ∀ reason index,
    failure (source.failureAt reason index) (source'.failureAt reason index)
  deeper : ∀ {f f' g g'}, failure f f' → failure g g' → failure (f.deeper g) (f'.deeper g')
  better : ∀ {f f' b b'}, failure f f' → Option.Rel failure b b' →
    failure (f.better b) (f'.better b')
  lexeme : ∀ index, value (source.lexeme index).span (source'.lexeme index).span
  spanFrom : ∀ start stop, value (source.spanFrom start stop) (source'.spanFrom start stop)
  endPoint : ∀ {v w}, value v w → value (Span.point v.stop) (Span.point w.stop)

namespace Likeness

/-- On one source the failures and the values are the same. -/
def same (source : Source κ) : Likeness source source where
  failure := Eq
  value := Eq
  failureAt _ _ := rfl
  deeper hf hg := hf ▸ hg ▸ rfl
  better hf hb := by
    cases hb with
    | some hb => rw [hf, hb]
    | none => rw [hf]
  lexeme _ := rfl
  spanFrom _ _ := rfl
  endPoint h := h ▸ rfl

/-- On two sources any failure may stand for another one, and any value for another one. -/
def loose (source source' : Source κ) : Likeness source source' where
  failure _ _ := True
  value _ _ := True
  failureAt _ _ := trivial
  deeper _ _ := trivial
  better _ _ := trivial
  lexeme _ := trivial
  spanFrom _ _ := trivial
  endPoint _ := trivial

variable {source source' : Source κ} (L : Likeness source source')

inductive Outcome : Peg.Outcome → Peg.Outcome → Prop
  | matched {v w : Span} {j : Nat} (h : L.value v w) : Outcome (.matched v j) (.matched w j)
  | failed {f g : Failure} (h : L.failure f g) : Outcome (.failed f) (.failed g)
  | fatal {f g : Failure} (h : L.failure f g) : Outcome (.aborted (.fatal f)) (.aborted (.fatal g))
  | undefinedRule {name : String} :
      Outcome (.aborted (.undefinedRule name)) (.aborted (.undefinedRule name))

omit [Describe κ] in
theorem Outcome.isDecided_eq {L : Likeness source source'} {o o' : Peg.Outcome}
    (h : L.Outcome o o') : o.isDecided = o'.isDecided := by
  cases h <;> rfl

/-- What two ledgers have in common stays so when corresponding failures are noted. -/
structure Keeps [Ledger σ] [Ledger τ] (S : σ → τ → Prop) : Prop where
  note : ∀ {s t f g}, S s t → L.failure f g → S (Ledger.note s f) (Ledger.note t g)
  observe : ∀ {s t} (e e'), S s t → S (Ledger.observe s e) (Ledger.observe t e')

/-- Two results correspond, unless the first run stops for a cause in `Escape`. -/
def Agree (Escape : Abort → Prop) (S : σ → τ → Prop) (x : Peg.Outcome × σ)
    (y : Peg.Outcome × τ) : Prop :=
  (∃ cause, x.1 = .aborted cause ∧ Escape cause) ∨ L.Outcome x.1 y.1 ∧ S x.2 y.2

omit [Describe κ] in
theorem Agree.cases {L : Likeness source source'} {Escape : Abort → Prop} {S : σ → τ → Prop}
    {x : Peg.Outcome × σ} {y : Peg.Outcome × τ} (h : L.Agree Escape S x y) :
    (∃ cause s, x = (.aborted cause, s) ∧ Escape cause) ∨
      ∃ o o' s t, x = (o, s) ∧ y = (o', t) ∧ L.Outcome o o' ∧ S s t := by
  obtain ⟨o, s⟩ := x
  obtain ⟨o', t⟩ := y
  obtain ⟨cause, rfl, hescape⟩ | ⟨ho, hS⟩ := h
  · exact .inl ⟨cause, s, rfl, hescape⟩
  · exact .inr ⟨o, o', s, t, rfl, rfl, ho, hS⟩

omit [Describe κ] in
theorem Agree.of_isDecided {L : Likeness source source'} {Escape : Abort → Prop} {S : σ → τ → Prop}
    {x : Peg.Outcome × σ} {y : Peg.Outcome × τ} (h : L.Agree Escape S x y)
    (hx : x.1.isDecided = true) : L.Outcome x.1 y.1 ∧ S x.2 y.2 := by
  rcases h with ⟨cause, hcause, -⟩ | h
  · rw [hcause] at hx
    cases hx
  · exact h

omit [Describe κ] in
theorem Agree.of_false {L : Likeness source source'} {S : σ → τ → Prop} {x : Peg.Outcome × σ}
    {y : Peg.Outcome × τ} (h : L.Agree (fun _ => False) S x y) :
    L.Outcome x.1 y.1 ∧ S x.2 y.2 :=
  h.resolve_left fun ⟨_, _, hfalse⟩ => hfalse

omit [Describe κ] in
theorem outcome_point (i : Nat) : L.Outcome (source.stay i) (source'.stay i) := by
  refine .matched ?_
  simpa using L.spanFrom i i

omit [Describe κ] in
theorem outcome_same {source : Source κ} {o o' : Peg.Outcome} :
    (same source).Outcome o o' ↔ o = o' := by
  constructor
  · intro h
    cases h with
    | matched h | failed h | fatal h => exact h ▸ rfl
    | undefinedRule => rfl
  · rintro rfl
    cases o with
    | matched v j => exact .matched rfl
    | failed f => exact .failed rfl
    | aborted cause =>
        cases cause with
        | fatal f => exact .fatal rfl
        | undefinedRule name => exact .undefinedRule

omit [Describe κ] in
theorem furthest_same {source : Source κ} {f g : Option Failure}
    (h : Option.Rel (same source).failure f g) : f = g := by
  cases h with
  | some h => exact congrArg some h
  | none => rfl

omit [Describe κ] in
theorem furthest_loose {f g : Option Failure} :
    Option.Rel (loose source source').failure f g ↔ f.isSome = g.isSome := by
  constructor
  · intro h
    cases h <;> rfl
  · intro h
    cases f <;> cases g
    case none.none => exact .none
    case some.some => exact .some trivial
    all_goals cases h

section

variable {Escape : Abort → Prop} {S : σ → τ → Prop} {f : Matcher σ} {g : Matcher τ}

omit [Describe κ] in
/-- Repetitions correspond, though they may have different numbers of rounds left. -/
theorem agree_repeated {mode : Mode} (start : Nat) (good : Nat → Prop)
    (hpart : ∀ i s t, good i → S s t → L.Agree Escape S (f mode i s) (g mode i t))
    (hmoves : ∀ i s t v j s', good i → S s t → f mode i s = (.matched v j, s') → j ≠ i →
      i < j ∧ j ≤ source.last ∧ j ≤ source'.last ∧ good j) :
    ∀ (rounds rounds' i : Nat) (s : σ) (t : τ), source.last - i < rounds →
      source'.last - i < rounds' → good i → S s t →
      L.Agree Escape S (source.repeated f mode start rounds i s)
        (source'.repeated g mode start rounds' i t) := by
  intro rounds
  induction rounds with
  | zero =>
      intro rounds' i s t hr
      omega
  | succ rounds ih =>
      intro rounds' i s t hr hr' hi hS
      obtain ⟨rounds', rfl⟩ : ∃ n, rounds' = n + 1 := ⟨rounds' - 1, by omega⟩
      rw [Source.repeated, Source.repeated]
      obtain ⟨cause, s', hx, hescape⟩ | ⟨o, o', s', t', hx, hy, ho, hS'⟩ := (hpart i s t hi hS).cases
      · rw [hx]
        exact .inl ⟨cause, rfl, hescape⟩
      · rw [hx, hy]
        cases ho with
        | @matched v w j hv =>
            by_cases hji : j = i
            · simp only [hji, if_true]
              exact .inr ⟨.matched (L.spanFrom start i), hS'⟩
            · obtain ⟨hij, hj, hj', hgood⟩ := hmoves i s t v j s' hi hS hx hji
              simp only [hji, if_false]
              exact ih rounds' j s' t' (by omega) (by omega) hgood hS'
        | failed hf => exact .inr ⟨.matched (L.spanFrom start i), hS'⟩
        | fatal hf => exact .inr ⟨.fatal hf, hS'⟩
        | undefinedRule => exact .inr ⟨.undefinedRule, hS'⟩

end

section

variable [DecidableEq κ] [Ledger σ] [Ledger τ] {Escape : Abort → Prop} {S : σ → τ → Prop}
  {depth depth' : Nat} {call : Nat → Matcher σ} {call' : Nat → Matcher τ} {mode : Mode} {i : Nat}
  {s : σ} {t : τ}

omit [DecidableEq κ] [Describe κ] in
theorem agree_fail (hkeeps : L.Keeps S) (reason : Reason) (mode : Mode) (i : Nat) (hS : S s t) :
    L.Agree Escape S (source.fail reason mode i s) (source'.fail reason mode i t) := by
  refine .inr ⟨?_, ?_⟩
  · rw [Source.fail_fst, Source.fail_fst]
    cases hr : reason.isFatal with
    | false =>
        rw [Outcome.ofFailure_eq_failed hr, Outcome.ofFailure_eq_failed hr]
        exact .failed (L.failureAt reason i)
    | true =>
        rw [Outcome.ofFailure_eq_aborted hr, Outcome.ofFailure_eq_aborted hr]
        exact .fatal (L.failureAt reason i)
  · unfold Source.fail
    dsimp only
    split
    · exact hS
    · exact hkeeps.note hS (L.failureAt reason i)

omit [DecidableEq κ] [Describe κ] [Ledger σ] [Ledger τ] in
theorem agree_accept (hnext : source.next i = source'.next i) (hS : S s t) :
    L.Agree Escape S (source.accept i, s) (source'.accept i, t) := by
  rw [Source.accept, Source.accept, ← hnext]
  exact .inr ⟨.matched (L.lexeme i), hS⟩

theorem agree_token (hkeeps : L.Keeps S) {kind : κ}
    (hkind : (source.lexeme i).kind = kind ↔ (source'.lexeme i).kind = kind)
    (hnext : (source.lexeme i).kind = kind → source.next i = source'.next i) (hS : S s t) :
    L.Agree Escape S ((Rule.token kind).run source depth call mode i s)
      ((Rule.token kind).run source' depth' call' mode i t) := by
  rw [Rule.run, Rule.run]
  by_cases h : (source.lexeme i).kind = kind
  · rw [if_pos h, if_pos (hkind.1 h)]
    exact L.agree_accept (hnext h) hS
  · rw [if_neg h, if_neg (fun h' => h (hkind.2 h'))]
    exact L.agree_fail hkeeps _ mode i hS

theorem agree_word (hkeeps : L.Keeps S)
    (hword : (source.lexeme i).isWord = (source'.lexeme i).isWord)
    (hnext : (source.lexeme i).isWord = true → source.next i = source'.next i) (hS : S s t) :
    L.Agree Escape S (Rule.word.run source depth call mode i s)
      (Rule.word.run source' depth' call' mode i t) := by
  rw [Rule.run, Rule.run, ← hword]
  split
  case isTrue h => exact L.agree_accept (hnext h) hS
  case isFalse h => exact L.agree_fail hkeeps _ mode i hS

theorem agree_keyword (hkeeps : L.Keeps S) {text : String}
    (hword : (source.lexeme i).isWord = (source'.lexeme i).isWord)
    (htext : (source.lexeme i).isWord = true →
      ((source.lexeme i).text = text ↔ (source'.lexeme i).text = text))
    (hnext : (source.lexeme i).isWord = true → source.next i = source'.next i) (hS : S s t) :
    L.Agree Escape S ((Rule.keyword text).run source depth call mode i s)
      ((Rule.keyword text).run source' depth' call' mode i t) := by
  have htest : ((source.lexeme i).isWord && (source.lexeme i).text == text) =
      ((source'.lexeme i).isWord && (source'.lexeme i).text == text) := by
    rw [← hword]
    cases hw : (source.lexeme i).isWord with
    | false => rfl
    | true =>
        rw [Bool.true_and, Bool.true_and, Bool.eq_iff_iff, beq_iff_eq, beq_iff_eq]
        exact htext hw
  rw [Rule.run, Rule.run, ← htest]
  split
  case isTrue h => exact L.agree_accept (hnext ((Bool.and_eq_true _ _).mp h).1) hS
  case isFalse h => exact L.agree_fail hkeeps _ mode i hS

theorem agree_lineBreak (hkeeps : L.Keeps S) (hline : mode.newlines = true →
    (source.lexeme i).newlineBefore = (source'.lexeme i).newlineBefore) (hS : S s t) :
    L.Agree Escape S (Rule.lineBreak.run source depth call mode i s)
      (Rule.lineBreak.run source' depth' call' mode i t) := by
  have htest : (mode.newlines && (source.lexeme i).newlineBefore) =
      (mode.newlines && (source'.lexeme i).newlineBefore) := by
    cases hm : mode.newlines with
    | false => rfl
    | true => simpa using hline hm
  rw [Rule.run, Rule.run, ← htest]
  split
  · exact .inr ⟨L.outcome_point i, hS⟩
  · exact L.agree_fail hkeeps _ mode i hS

theorem agree_andThen {first second : Rule κ}
    (hfirst : L.Agree Escape S (first.run source depth call mode i s)
      (first.run source' depth' call' mode i t))
    (hsecond : ∀ v j s' t', first.run source depth call mode i s = (.matched v j, s') → S s' t' →
      L.Agree Escape S (second.run source depth call mode j s')
        (second.run source' depth' call' mode j t')) :
    L.Agree Escape S ((Rule.andThen first second).run source depth call mode i s)
      ((Rule.andThen first second).run source' depth' call' mode i t) := by
  rw [Rule.run, Rule.run]
  obtain ⟨cause, s', hx, hescape⟩ | ⟨o, o', s', t', hx, hy, ho, hS'⟩ := hfirst.cases
  · rw [hx]
    exact .inl ⟨cause, rfl, hescape⟩
  · rw [hx, hy]
    cases ho with
    | @matched v w j hv =>
        dsimp only
        obtain ⟨cause, s'', hx, hescape⟩ | ⟨o, o', s'', t'', hx, hy, ho, hS''⟩ :=
          (hsecond v j s' t' hx hS').cases
        · rw [hx]
          exact .inl ⟨cause, rfl, hescape⟩
        · rw [hx, hy]
          cases ho with
          | @matched _ _ k _ => exact .inr ⟨.matched (L.spanFrom i k), hS''⟩
          | failed hf => exact .inr ⟨.failed hf, hS''⟩
          | fatal hf => exact .inr ⟨.fatal hf, hS''⟩
          | undefinedRule => exact .inr ⟨.undefinedRule, hS''⟩
    | failed hf => exact .inr ⟨.failed hf, hS'⟩
    | fatal hf => exact .inr ⟨.fatal hf, hS'⟩
    | undefinedRule => exact .inr ⟨.undefinedRule, hS'⟩

theorem agree_orElse {first second : Rule κ}
    (hfirst : L.Agree Escape S (first.run source depth call mode i s)
      (first.run source' depth' call' mode i t))
    (hsecond : ∀ f s' t', first.run source depth call mode i s = (.failed f, s') → S s' t' →
      L.Agree Escape S (second.run source depth call mode i s')
        (second.run source' depth' call' mode i t')) :
    L.Agree Escape S ((Rule.orElse first second).run source depth call mode i s)
      ((Rule.orElse first second).run source' depth' call' mode i t) := by
  rw [Rule.run, Rule.run]
  obtain ⟨cause, s', hx, hescape⟩ | ⟨o, o', s', t', hx, hy, ho, hS'⟩ := hfirst.cases
  · rw [hx]
    exact .inl ⟨cause, rfl, hescape⟩
  · rw [hx, hy]
    cases ho with
    | matched hv => exact .inr ⟨.matched hv, hS'⟩
    | @failed f _ hf =>
        dsimp only
        obtain ⟨cause, s'', hx, hescape⟩ | ⟨o, o', s'', t'', hx, hy, ho, hS''⟩ :=
          (hsecond f s' t' hx hS').cases
        · rw [hx]
          exact .inl ⟨cause, rfl, hescape⟩
        · rw [hx, hy]
          cases ho with
          | matched hv => exact .inr ⟨.matched hv, hS''⟩
          | failed hg => exact .inr ⟨.failed (L.deeper hf hg), hS''⟩
          | fatal hf => exact .inr ⟨.fatal hf, hS''⟩
          | undefinedRule => exact .inr ⟨.undefinedRule, hS''⟩
    | fatal hf => exact .inr ⟨.fatal hf, hS'⟩
    | undefinedRule => exact .inr ⟨.undefinedRule, hS'⟩

theorem agree_optional {part : Rule κ}
    (hpart : L.Agree Escape S (part.run source depth call mode i s)
      (part.run source' depth' call' mode i t)) :
    L.Agree Escape S (part.optional.run source depth call mode i s)
      (part.optional.run source' depth' call' mode i t) := by
  rw [Rule.run, Rule.run]
  obtain ⟨cause, s', hx, hescape⟩ | ⟨o, o', s', t', hx, hy, ho, hS'⟩ := hpart.cases
  · rw [hx]
    exact .inl ⟨cause, rfl, hescape⟩
  · rw [hx, hy]
    cases ho with
    | @matched _ _ j _ => exact .inr ⟨.matched (L.spanFrom i j), hS'⟩
    | failed hf => exact .inr ⟨L.outcome_point i, hS'⟩
    | fatal hf => exact .inr ⟨.fatal hf, hS'⟩
    | undefinedRule => exact .inr ⟨.undefinedRule, hS'⟩

theorem agree_ahead {part : Rule κ}
    (hpart : L.Agree Escape S (part.run source depth call mode i s)
      (part.run source' depth' call' mode i t)) :
    L.Agree Escape S (part.ahead.run source depth call mode i s)
      (part.ahead.run source' depth' call' mode i t) := by
  rw [Rule.run, Rule.run]
  obtain ⟨cause, s', hx, hescape⟩ | ⟨o, o', s', t', hx, hy, ho, hS'⟩ := hpart.cases
  · rw [hx]
    exact .inl ⟨cause, rfl, hescape⟩
  · rw [hx, hy]
    cases ho with
    | matched hv => exact .inr ⟨L.outcome_point i, hS'⟩
    | failed hf => exact .inr ⟨.failed hf, hS'⟩
    | fatal hf => exact .inr ⟨.fatal hf, hS'⟩
    | undefinedRule => exact .inr ⟨.undefinedRule, hS'⟩

theorem agree_notAhead (hkeeps : L.Keeps S) {part : Rule κ}
    (hpart : L.Agree Escape S (part.run source depth call { mode with quiet := true } i s)
      (part.run source' depth' call' { mode with quiet := true } i t))
    (hkind : ∀ v j s', part.run source depth call { mode with quiet := true } i s =
      (.matched v j, s') → (source.lexeme i).kind = (source'.lexeme i).kind) :
    L.Agree Escape S (part.notAhead.run source depth call mode i s)
      (part.notAhead.run source' depth' call' mode i t) := by
  rw [Rule.run, Rule.run]
  obtain ⟨cause, s', hx, hescape⟩ | ⟨o, o', s', t', hx, hy, ho, hS'⟩ := hpart.cases
  · rw [hx]
    exact .inl ⟨cause, rfl, hescape⟩
  · rw [hx, hy]
    cases ho with
    | @matched v _ j hv =>
        dsimp only
        rw [← hkind v j s' hx]
        exact L.agree_fail hkeeps _ mode i hS'
    | failed hf => exact .inr ⟨L.outcome_point i, hS'⟩
    | fatal hf => exact .inr ⟨.fatal hf, hS'⟩
    | undefinedRule => exact .inr ⟨.undefinedRule, hS'⟩

theorem agree_endPoint {part : Rule κ}
    (hpart : L.Agree Escape S (part.run source depth call mode i s)
      (part.run source' depth' call' mode i t)) :
    L.Agree Escape S (part.endPoint.run source depth call mode i s)
      (part.endPoint.run source' depth' call' mode i t) := by
  rw [Rule.run, Rule.run]
  obtain ⟨cause, s', hx, hescape⟩ | ⟨o, o', s', t', hx, hy, ho, hS'⟩ := hpart.cases
  · rw [hx]
    exact .inl ⟨cause, rfl, hescape⟩
  · rw [hx, hy]
    cases ho with
    | matched hv => exact .inr ⟨.matched (L.endPoint hv), hS'⟩
    | failed hf => exact .inr ⟨.failed hf, hS'⟩
    | fatal hf => exact .inr ⟨.fatal hf, hS'⟩
    | undefinedRule => exact .inr ⟨.undefinedRule, hS'⟩

theorem agree_traced (hkeeps : L.Keeps S) {name : String} {part : Rule κ}
    (hpart : L.Agree Escape S (part.run source depth call mode i s)
      (part.run source' depth' call' mode i t)) :
    L.Agree Escape S ((Rule.traced name part).run source depth call mode i s)
      ((Rule.traced name part).run source' depth' call' mode i t) := by
  rw [Rule.run, Rule.run]
  obtain h | ⟨ho, hS⟩ := hpart
  · exact .inl h
  · exact .inr ⟨ho, hkeeps.observe _ _ hS⟩

end

/-- The matchers take the same decisions wherever the tokens look alike. -/
def InStep (definitions : Definitions κ) (Escape : Abort → Prop) (S : σ → τ → Prop)
    (rule : Rule κ) (f : Matcher σ) (g : Matcher τ) : Prop :=
  ∀ mode i s t, i ≤ source.last → S s t →
    source.AlikeFor source' definitions rule mode.newlines i →
    L.Agree Escape S (f mode i s) (g mode i t)

/-- Runs of a rule keep in step if runs of the recursive rules do. -/
theorem run_inStep [DecidableEq κ] [Ledger σ] [Ledger τ] {definitions : Definitions κ}
    {Escape : Abort → Prop} {S : σ → τ → Prop} (hkeeps : L.Keeps S) {call : Nat → Matcher σ}
    {call' : Nat → Matcher τ} (depth depth' : Nat)
    (hexplained : ∀ (rule : Rule κ) mode i s t, i ≤ source.last → S s t →
      Explained source definitions rule mode.newlines i (rule.run source depth call mode i s).1)
    (hcall : ∀ r, L.InStep definitions Escape S (.ref r) (call r) (call' r)) (rule : Rule κ) :
    L.InStep definitions Escape S rule (rule.run source depth call)
      (rule.run source' depth' call') := by
  -- the tokens at which a later part starts look alike because the first run is explained by a
  -- derivation, which says where that is
  induction rule with
  | token kind =>
      intro mode i s t _ hS halike
      have ha := halike _ _ _ .here
      exact L.agree_token hkeeps (by rw [ha.kind]) (fun _ => ha.next) hS
  | word =>
      intro mode i s t _ hS halike
      have ha := halike _ _ _ .here
      exact L.agree_word hkeeps ha.isWord (fun _ => ha.next) hS
  | keyword text =>
      intro mode i s t _ hS halike
      have ha := halike _ _ _ .here
      exact L.agree_keyword hkeeps ha.isWord (ha.text text rfl) (fun _ => ha.next) hS
  | nothing => exact fun _ i _ _ _ hS _ => .inr ⟨L.outcome_point i, hS⟩
  | andThen first second ihfirst ihsecond =>
      intro mode i s t hi hS halike
      refine L.agree_andThen (ihfirst mode i s t hi hS fun _ _ _ hv => halike _ _ _ hv.andThenFirst)
        fun v j s' t' hx hS' => ?_
      have he := hexplained first mode i s t hi hS
      rw [hx] at he
      obtain ⟨d, hd⟩ := he
      exact ihsecond mode j s' t' (hd.bounds hi j rfl).2 hS'
        fun _ _ _ hv => halike _ _ _ (.andThenSecond hd hv)
  | orElse first second ihfirst ihsecond =>
      intro mode i s t hi hS halike
      refine L.agree_orElse (ihfirst mode i s t hi hS fun _ _ _ hv => halike _ _ _ hv.orElseFirst)
        fun f s' t' hx hS' => ?_
      have he := hexplained first mode i s t hi hS
      rw [hx] at he
      obtain ⟨d, hd⟩ := he
      exact ihsecond mode i s' t' hi hS' fun _ _ _ hv => halike _ _ _ (.orElseSecond hd hv)
  | optional part ih =>
      intro mode i s t hi hS halike
      exact L.agree_optional (ih mode i s t hi hS fun _ _ _ hv => halike _ _ _ hv.optional)
  | many part ih =>
      intro mode i s t hi hS halike
      rw [Rule.run, Rule.run]
      refine L.agree_repeated i (fun i => i ≤ source.last ∧
          source.AlikeFor source' definitions (.many part) mode.newlines i)
        (fun i s t hi hS => ih mode i s t hi.1 hS fun _ _ _ hv => hi.2 _ _ _ hv.many)
        (fun i s t v j s' hi hS hx hji => ?_) _ _ i s t (Nat.lt_succ_self _) (Nat.lt_succ_self _)
        ⟨hi, halike⟩ hS
      have he := hexplained part mode i s t hi.1 hS
      rw [hx] at he
      obtain ⟨d, hd⟩ := he
      obtain ⟨hij, hj⟩ := hd.bounds hi.1 j rfl
      have hrest : source.AlikeFor source' definitions (.many part) mode.newlines j :=
        fun _ _ _ hv => hi.2 _ _ _ (.manyMore hd hji hv)
      exact ⟨by omega, hj, (hrest _ _ _ .here).inside, hj, hrest⟩
  | ahead part ih =>
      intro mode i s t hi hS halike
      exact L.agree_ahead (ih mode i s t hi hS fun _ _ _ hv => halike _ _ _ hv.ahead)
  | notAhead part ih =>
      intro mode i s t hi hS halike
      exact L.agree_notAhead hkeeps
        (ih { mode with quiet := true } i s t hi hS fun _ _ _ hv => halike _ _ _ hv.notAhead)
        (fun _ _ _ _ => (halike _ _ _ .here).kind)
  | lineBreak =>
      intro mode i s t _ hS halike
      exact L.agree_lineBreak hkeeps ((halike _ _ _ .here).newlineBefore rfl) hS
  | newlines count part ih =>
      intro mode i s t hi hS halike
      rw [Rule.run, Rule.run]
      exact ih { mode with newlines := count } i s t hi hS
        fun _ _ _ hv => halike _ _ _ hv.newlines
  | fail reason => exact fun mode i _ _ _ hS _ => L.agree_fail hkeeps reason mode i hS
  | any => exact fun _ i _ _ _ hS halike => L.agree_accept (halike _ _ _ .here).next hS
  | failNext reason =>
      intro mode i s t _ hS halike
      rw [Rule.run, Rule.run, ← (halike _ _ _ .here).next]
      exact L.agree_fail hkeeps reason mode _ hS
  | endPoint part ih =>
      intro mode i s t hi hS halike
      exact L.agree_endPoint (ih mode i s t hi hS fun _ _ _ hv => halike _ _ _ hv.endPoint)
  | traced name part ih =>
      intro mode i s t hi hS halike
      exact L.agree_traced hkeeps (ih mode i s t hi hS fun _ _ _ hv => halike _ _ _ hv.traced)
  | ref r => exact hcall r

end Likeness
end AnnotationScan.Peg
