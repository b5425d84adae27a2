import AnnotationScan.Proofs.Peg.Expansion

/-!
# Where rules match

What a rule does at a token, without the value it gives, the reason it fails for and how deep
references are nested: it matches up to a token, or it does not match.  For each operator there is
one law that says when it matches and one that says when it does not.
-/

namespace AnnotationScan.Peg

variable {κ : Type} [Describe κ]

/-- The rule, applied at the token `i`, matches the tokens in front of `j`. -/
def Matches (source : Source κ) (definitions : Definitions κ) (rule : Rule κ) (newlines : Bool)
    (i j : Nat) : Prop :=
  ∃ d v, Derives source definitions d rule newlines i (.matched v j)

/-- The rule, applied at the token `i`, does not match. -/
def Refuses (source : Source κ) (definitions : Definitions κ) (rule : Rule κ) (newlines : Bool)
    (i : Nat) : Prop :=
  ∃ d f, Derives source definitions d rule newlines i (.failed f)

variable {source : Source κ} {definitions : Definitions κ} {m : Bool} {i j k : Nat}

section

variable {rule part first second : Rule κ}

theorem Matches.bounds (h : Matches source definitions rule m i j) (hi : i ≤ source.last) :
    i ≤ j ∧ j ≤ source.last := by
  obtain ⟨d, v, hd⟩ := h
  exact hd.bounds hi j rfl

theorem Matches.unique [DecidableEq κ] (h : Matches source definitions rule m i j)
    (h' : Matches source definitions rule m i k) (hi : i ≤ source.last) : j = k := by
  obtain ⟨d, v, hd⟩ := h
  obtain ⟨e, w, he⟩ := h'
  have hsame := hd.unique he hi
  exact (Outcome.matched.inj hsame).2

theorem Matches.not_refuses [DecidableEq κ] (h : Matches source definitions rule m i j)
    (hi : i ≤ source.last) : ¬Refuses source definitions rule m i := by
  obtain ⟨d, v, hd⟩ := h
  rintro ⟨e, f, he⟩
  cases hd.unique he hi

/-! ## Tokens -/

theorem matches_token {kind : κ} : Matches source definitions (.token kind) m i j ↔
    (source.lexeme i).kind = kind ∧ j = source.next i := by
  constructor
  · rintro ⟨d, v, hd⟩
    cases hd with
    | token h => exact ⟨h, rfl⟩
  · rintro ⟨h, rfl⟩
    exact ⟨0, _, .token h⟩

theorem refuses_token {kind : κ} : Refuses source definitions (.token kind) m i ↔
    (source.lexeme i).kind ≠ kind := by
  constructor
  · rintro ⟨d, f, hd⟩
    cases hd with
    | noToken h => exact h
  · exact fun h => ⟨0, _, .noToken h⟩

theorem matches_word : Matches source definitions .word m i j ↔
    (source.lexeme i).isWord = true ∧ j = source.next i := by
  constructor
  · rintro ⟨d, v, hd⟩
    cases hd with
    | word h => exact ⟨h, rfl⟩
  · rintro ⟨h, rfl⟩
    exact ⟨0, _, .word h⟩

theorem refuses_word : Refuses source definitions .word m i ↔
    (source.lexeme i).isWord = false := by
  constructor
  · rintro ⟨d, f, hd⟩
    cases hd with
    | noWord h => exact h
  · exact fun h => ⟨0, _, .noWord h⟩

theorem matches_keyword {text : String} : Matches source definitions (.keyword text) m i j ↔
    ((source.lexeme i).isWord = true ∧ (source.lexeme i).text = text) ∧ j = source.next i := by
  constructor
  · rintro ⟨d, v, hd⟩
    cases hd with
    | keyword h => exact ⟨h, rfl⟩
  · rintro ⟨h, rfl⟩
    exact ⟨0, _, .keyword h⟩

theorem refuses_keyword {text : String} : Refuses source definitions (.keyword text) m i ↔
    ¬((source.lexeme i).isWord = true ∧ (source.lexeme i).text = text) := by
  constructor
  · rintro ⟨d, f, hd⟩
    cases hd with
    | noKeyword h => exact h
  · exact fun h => ⟨0, _, .noKeyword h⟩

theorem matches_lineBreak : Matches source definitions .lineBreak m i j ↔
    m = true ∧ (source.lexeme i).newlineBefore = true ∧ j = i := by
  constructor
  · rintro ⟨d, v, hd⟩
    cases hd with
    | lineBreak h => exact ⟨rfl, h, rfl⟩
  · rintro ⟨rfl, h, rfl⟩
    exact ⟨0, _, .lineBreak h⟩

theorem refuses_lineBreak : Refuses source definitions .lineBreak m i ↔
    (m && (source.lexeme i).newlineBefore) = false := by
  constructor
  · rintro ⟨d, f, hd⟩
    cases hd with
    | noLineBreak h => exact h
  · exact fun h => ⟨0, _, .noLineBreak h⟩

theorem not_matches_fail {reason : Reason} : ¬Matches source definitions (.fail reason) m i j := by
  rintro ⟨d, v, hd⟩
  cases hd

theorem refuses_fail {reason : Reason} (h : reason.isFatal = false) :
    Refuses source definitions (.fail reason) m i := ⟨0, _, .fail h⟩

theorem matches_nothing : Matches source definitions .nothing m i j ↔ j = i := by
  constructor
  · rintro ⟨d, v, hd⟩
    cases hd
    rfl
  · rintro rfl
    exact ⟨0, _, .nothing⟩

theorem not_refuses_nothing : ¬Refuses source definitions .nothing m i := by
  rintro ⟨d, f, hd⟩
  cases hd

/-! ## Rows and alternatives -/

theorem matches_andThen : Matches source definitions (.andThen first second) m i j ↔
    ∃ k, Matches source definitions first m i k ∧ Matches source definitions second m k j := by
  constructor
  · rintro ⟨d, v, hd⟩
    cases hd with
    | andThen hfirst hsecond => exact ⟨_, ⟨_, _, hfirst⟩, _, _, hsecond⟩
  · rintro ⟨k, ⟨_, _, hfirst⟩, _, _, hsecond⟩
    exact ⟨_, _, .andThen hfirst hsecond⟩

theorem refuses_andThen : Refuses source definitions (.andThen first second) m i ↔
    Refuses source definitions first m i ∨
      ∃ k, Matches source definitions first m i k ∧ Refuses source definitions second m k := by
  constructor
  · rintro ⟨d, f, hd⟩
    cases hd with
    | andThenFirst hfirst => exact .inl ⟨_, _, hfirst⟩
    | andThenSecond hfirst hsecond => exact .inr ⟨_, ⟨_, _, hfirst⟩, _, _, hsecond⟩
  · rintro (⟨_, _, hfirst⟩ | ⟨k, ⟨_, _, hfirst⟩, _, _, hsecond⟩)
    · exact ⟨_, _, .andThenFirst hfirst⟩
    · exact ⟨_, _, .andThenSecond hfirst hsecond⟩

theorem matches_orElse : Matches source definitions (.orElse first second) m i j ↔
    Matches source definitions first m i j ∨
      Refuses source definitions first m i ∧ Matches source definitions second m i j := by
  constructor
  · rintro ⟨d, v, hd⟩
    cases hd with
    | orElseFirst hfirst => exact .inl ⟨_, _, hfirst⟩
    | orElseSecond hfirst hsecond => exact .inr ⟨⟨_, _, hfirst⟩, _, _, hsecond⟩
  · rintro (⟨_, _, hfirst⟩ | ⟨⟨_, _, hfirst⟩, _, _, hsecond⟩)
    · exact ⟨_, _, .orElseFirst hfirst⟩
    · exact ⟨_, _, .orElseSecond hfirst hsecond⟩

theorem refuses_orElse : Refuses source definitions (.orElse first second) m i ↔
    Refuses source definitions first m i ∧ Refuses source definitions second m i := by
  constructor
  · rintro ⟨d, f, hd⟩
    cases hd with
    | orElseNeither hfirst hsecond => exact ⟨⟨_, _, hfirst⟩, _, _, hsecond⟩
  · rintro ⟨⟨_, _, hfirst⟩, _, _, hsecond⟩
    exact ⟨_, _, .orElseNeither hfirst hsecond⟩

theorem matches_choice_cons {rules : List (Rule κ)} (hne : rules ≠ []) :
    Matches source definitions (Rule.choice (rule :: rules)) m i j ↔
      Matches source definitions rule m i j ∨ Refuses source definitions rule m i ∧
        Matches source definitions (Rule.choice rules) m i j := by
  cases rules with
  | nil => exact absurd rfl hne
  | cons next rules => exact matches_orElse

theorem refuses_choice {rules : List (Rule κ)} :
    Refuses source definitions (Rule.choice rules) m i ↔
      ∀ rule ∈ rules, Refuses source definitions rule m i := by
  induction rules with
  | nil => exact iff_of_true (refuses_fail rfl) fun _ hmem => nomatch hmem
  | cons rule rules ih =>
      cases rules with
      | nil => simp [Rule.choice]
      | cons next rules =>
          rw [List.forall_mem_cons, ← ih]
          exact refuses_orElse

/-! ## Parts that may be missing or repeated -/

theorem matches_optional : Matches source definitions (.optional part) m i j ↔
    Matches source definitions part m i j ∨ Refuses source definitions part m i ∧ j = i := by
  constructor
  · rintro ⟨d, v, hd⟩
    cases hd with
    | optional hpart => exact .inl ⟨_, _, hpart⟩
    | optionalNone hpart => exact .inr ⟨⟨_, _, hpart⟩, rfl⟩
  · rintro (⟨_, _, hpart⟩ | ⟨⟨_, _, hpart⟩, rfl⟩)
    · exact ⟨_, _, .optional hpart⟩
    · exact ⟨_, _, .optionalNone hpart⟩

theorem not_refuses_optional : ¬Refuses source definitions (.optional part) m i := by
  rintro ⟨d, f, hd⟩
  cases hd

theorem matches_many : Matches source definitions (.many part) m i j ↔
    (Refuses source definitions part m i ∨ Matches source definitions part m i i) ∧ j = i ∨
      ∃ k, k ≠ i ∧ Matches source definitions part m i k ∧
        Matches source definitions (.many part) m k j := by
  constructor
  · rintro ⟨d, v, hd⟩
    cases hd with
    | manyNone hpart => exact .inl ⟨.inl ⟨_, _, hpart⟩, rfl⟩
    | manyIdle hpart => exact .inl ⟨.inr ⟨_, _, hpart⟩, rfl⟩
    | manyMore hpart hne hrest => exact .inr ⟨_, hne, ⟨_, _, hpart⟩, _, _, hrest⟩
  · rintro (⟨⟨_, _, hpart⟩ | ⟨_, _, hpart⟩, rfl⟩ | ⟨k, hne, ⟨_, _, hpart⟩, _, _, hrest⟩)
    · exact ⟨_, _, .manyNone hpart⟩
    · exact ⟨_, _, .manyIdle hpart⟩
    · exact ⟨_, _, .manyMore hpart hne hrest⟩

theorem Refuses.matches_many (h : Refuses source definitions part m i) :
    Matches source definitions (.many part) m i i :=
  Peg.matches_many.2 (.inl ⟨.inl h, rfl⟩)

theorem Matches.matches_many (h : Matches source definitions part m i j) (hne : j ≠ i)
    (hrest : Matches source definitions (.many part) m j k) :
    Matches source definitions (.many part) m i k :=
  Peg.matches_many.2 (.inr ⟨j, hne, h, hrest⟩)

theorem matches_ahead : Matches source definitions (.ahead part) m i j ↔
    (∃ k, Matches source definitions part m i k) ∧ j = i := by
  constructor
  · rintro ⟨d, v, hd⟩
    cases hd with
    | ahead hpart => exact ⟨⟨_, _, _, hpart⟩, rfl⟩
  · rintro ⟨⟨k, _, _, hpart⟩, rfl⟩
    exact ⟨_, _, .ahead hpart⟩

theorem refuses_ahead : Refuses source definitions (.ahead part) m i ↔
    Refuses source definitions part m i := by
  constructor
  · rintro ⟨d, f, hd⟩
    cases hd with
    | aheadNone hpart => exact ⟨_, _, hpart⟩
  · rintro ⟨_, _, hpart⟩
    exact ⟨_, _, .aheadNone hpart⟩

theorem matches_notAhead : Matches source definitions (.notAhead part) m i j ↔
    Refuses source definitions part m i ∧ j = i := by
  constructor
  · rintro ⟨d, v, hd⟩
    cases hd with
    | notAhead hpart => exact ⟨⟨_, _, hpart⟩, rfl⟩
  · rintro ⟨⟨_, _, hpart⟩, rfl⟩
    exact ⟨_, _, .notAhead hpart⟩

theorem refuses_notAhead : Refuses source definitions (.notAhead part) m i ↔
    ∃ j, Matches source definitions part m i j := by
  constructor
  · rintro ⟨d, f, hd⟩
    cases hd with
    | notAheadSome hpart => exact ⟨_, _, _, hpart⟩
  · rintro ⟨j, _, _, hpart⟩
    exact ⟨_, _, .notAheadSome hpart⟩

/-! ## Parts under another setting or name -/

theorem matches_newlines {count : Bool} : Matches source definitions (.newlines count part) m i j ↔
    Matches source definitions part count i j := by
  constructor
  · rintro ⟨d, v, hd⟩
    cases hd with
    | newlines hpart => exact ⟨_, _, hpart⟩
  · rintro ⟨_, _, hpart⟩
    exact ⟨_, _, .newlines hpart⟩

theorem refuses_newlines {count : Bool} : Refuses source definitions (.newlines count part) m i ↔
    Refuses source definitions part count i := by
  constructor
  · rintro ⟨d, f, hd⟩
    cases hd with
    | newlines hpart => exact ⟨_, _, hpart⟩
  · rintro ⟨_, _, hpart⟩
    exact ⟨_, _, .newlines hpart⟩

theorem matches_traced {name : String} : Matches source definitions (.traced name part) m i j ↔
    Matches source definitions part m i j := by
  constructor
  · rintro ⟨d, v, hd⟩
    cases hd with
    | traced hpart => exact ⟨_, _, hpart⟩
  · rintro ⟨_, _, hpart⟩
    exact ⟨_, _, .traced hpart⟩

theorem refuses_traced {name : String} : Refuses source definitions (.traced name part) m i ↔
    Refuses source definitions part m i := by
  constructor
  · rintro ⟨d, f, hd⟩
    cases hd with
    | traced hpart => exact ⟨_, _, hpart⟩
  · rintro ⟨_, _, hpart⟩
    exact ⟨_, _, .traced hpart⟩

theorem matches_ref {r : Nat} (h : definitions.body? r = some part) :
    Matches source definitions (.ref r) m i j ↔ Matches source definitions part m i j := by
  constructor
  · rintro ⟨d, v, hd⟩
    cases hd with
    | ref hbody hpart =>
        obtain rfl := Option.some.inj (h.symm.trans hbody)
        exact ⟨_, _, hpart⟩
  · rintro ⟨_, _, hpart⟩
    exact ⟨_, _, .ref h hpart⟩

theorem refuses_ref {r : Nat} (h : definitions.body? r = some part) :
    Refuses source definitions (.ref r) m i ↔ Refuses source definitions part m i := by
  constructor
  · rintro ⟨d, f, hd⟩
    cases hd with
    | ref hbody hpart =>
        obtain rfl := Option.some.inj (h.symm.trans hbody)
        exact ⟨_, _, hpart⟩
  · rintro ⟨_, _, hpart⟩
    exact ⟨_, _, .ref h hpart⟩

end

end AnnotationScan.Peg
