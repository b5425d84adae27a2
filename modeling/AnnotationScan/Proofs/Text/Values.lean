import AnnotationScan.Text.Number
import AnnotationScan.Text.WhiteSpace
import Mathlib

/-!
# Values written in a text

A value may be written with white space around it: a numeral, which is made up of digits with a plus
sign before them or not, or a word, whose letters may be capitals.  Trimming finds what is written,
and a numeral is read as the number that its digits denote.
-/

namespace AnnotationScan.Text

/-! ## White space around a value -/

def Pads (text value : List Char) : Prop :=
  ∃ front back, text = front ++ value ++ back ∧ (∀ c ∈ front, isWhiteSpace c = true) ∧
    ∀ c ∈ back, isWhiteSpace c = true

variable {text value : List Char}

theorem pads_trim (text : List Char) : Pads text (trim text) := by
  have hback : text.dropWhile isWhiteSpace = trim text ++
      ((text.dropWhile isWhiteSpace).reverse.takeWhile isWhiteSpace).reverse := by
    rw [trim, ← List.reverse_append, List.takeWhile_append_dropWhile, List.reverse_reverse]
  refine ⟨text.takeWhile isWhiteSpace,
    ((text.dropWhile isWhiteSpace).reverse.takeWhile isWhiteSpace).reverse, ?_, fun c hc => ?_,
    fun c hc => ?_⟩
  · rw [List.append_assoc, ← hback, List.takeWhile_append_dropWhile]
  · exact List.all_eq_true.1 List.all_takeWhile c hc
  · exact List.all_eq_true.1 List.all_takeWhile c (List.mem_reverse.1 hc)

/-- A value that is not empty and holds no white space. -/
structure Bare (value : List Char) : Prop where
  ne_nil : value ≠ []
  isWhiteSpace_eq_false : ∀ c ∈ value, isWhiteSpace c = false

namespace Bare

theorem reverse (h : Bare value) : Bare value.reverse :=
  ⟨mt List.reverse_eq_nil_iff.1 h.ne_nil, fun c hc =>
    h.isWhiteSpace_eq_false c (List.mem_reverse.1 hc)⟩

theorem dropWhile_append {front : List Char} (h : Bare value)
    (hfront : ∀ c ∈ front, isWhiteSpace c = true) (rest : List Char) :
    (front ++ (value ++ rest)).dropWhile isWhiteSpace = value ++ rest := by
  obtain ⟨c, value, rfl⟩ := List.exists_cons_of_ne_nil h.ne_nil
  have hc := h.isWhiteSpace_eq_false c List.mem_cons_self
  rw [List.dropWhile_append_of_pos hfront, List.cons_append,
    List.dropWhile_cons_of_neg (by simp [hc])]

end Bare

namespace Pads

theorem trim_eq (h : Pads text value) (hvalue : Bare value) : trim text = value := by
  obtain ⟨front, back, rfl, hfront, hback⟩ := h
  have hback' : ∀ c ∈ back.reverse, isWhiteSpace c = true := fun c hc =>
    hback c (List.mem_reverse.1 hc)
  rw [trim, List.append_assoc, hvalue.dropWhile_append hfront, List.reverse_append,
    ← List.append_nil value.reverse, hvalue.reverse.dropWhile_append hback', List.append_nil,
    List.reverse_reverse]

theorem not_blank (h : Pads text value) (hvalue : Bare value) :
    ¬∀ c ∈ text, isWhiteSpace c = true := by
  obtain ⟨front, back, rfl, -, -⟩ := h
  obtain ⟨c, hc⟩ := List.exists_mem_of_ne_nil value hvalue.ne_nil
  intro hblank
  have hspace := hblank c (by simp [hc])
  cases (hvalue.isWhiteSpace_eq_false c hc).symm.trans hspace

end Pads

/-! ## Numerals -/

/-- Decimal digits that denote a number, with a plus sign before them or not. -/
def Numeral (text : List Char) (n : Nat) : Prop :=
  ∃ digits, (text = digits ∨ text = '+' :: digits) ∧ digits ≠ [] ∧
    (∀ c ∈ digits, c.isDigit = true) ∧ n = Nat.ofDigitChars 10 digits 0

theorem digits?_eq_some_iff {n : Nat} : digits? text = some n ↔
    text ≠ [] ∧ (∀ c ∈ text, c.isDigit = true) ∧ n = Nat.ofDigitChars 10 text 0 := by
  rw [Nat.ofDigitChars_eq_foldl, eq_comm (a := n)]
  simp only [digits?, digitsValue, Option.ite_none_right_eq_some, Bool.and_eq_true,
    Bool.not_eq_true', List.isEmpty_eq_false_iff, List.all_eq_true, Option.some.injEq, and_assoc]

theorem natural?_eq_some_iff {largest n : Nat} :
    natural? largest text = some n ↔ Numeral text n ∧ n ≤ largest := by
  unfold natural?
  rw [Option.filter_eq_some_iff, decide_eq_true_iff]
  refine and_congr_left fun _ => ?_
  split
  case h_1 rest =>
    rw [digits?_eq_some_iff]
    constructor
    · rintro ⟨hne, hdigits, hn⟩
      exact ⟨rest, .inr rfl, hne, hdigits, hn⟩
    · rintro ⟨digits, rfl | htext, hne, hdigits, hn⟩
      · exact absurd (hdigits '+' List.mem_cons_self) (by decide)
      · obtain rfl := (List.cons.inj htext).2
        exact ⟨hne, hdigits, hn⟩
  case h_2 hplus =>
    rw [digits?_eq_some_iff]
    constructor
    · rintro ⟨hne, hdigits, hn⟩
      exact ⟨text, .inl rfl, hne, hdigits, hn⟩
    · rintro ⟨digits, rfl | rfl, hne, hdigits, hn⟩
      · exact ⟨hne, hdigits, hn⟩
      · exact absurd rfl (hplus digits)

theorem isWhiteSpace_of_isDigit {c : Char} (h : c.isDigit = true) : isWhiteSpace c = false := by
  rw [Bool.eq_false_iff]
  intro hspace
  simp only [Char.isDigit, isWhiteSpace, Bool.and_eq_true, Bool.or_eq_true, decide_eq_true_eq,
    ← Char.toNat_inj, Char.le_def, ge_iff_le, UInt32.le_iff_toNat_le, Char.toNat_val,
    Char.reduceToNat] at h hspace
  omega

theorem Numeral.bare {n : Nat} (h : Numeral text n) : Bare text := by
  obtain ⟨digits, htext, hne, hdigits, -⟩ := h
  have hbare : ∀ c ∈ digits, isWhiteSpace c = false := fun c hc =>
    isWhiteSpace_of_isDigit (hdigits c hc)
  rcases htext with rfl | rfl
  · exact ⟨hne, hbare⟩
  · exact ⟨List.cons_ne_nil _ _, List.forall_mem_cons.2 ⟨by decide, hbare⟩⟩

theorem numeral_toString (n : Nat) : Numeral (toString n).toList n := by
  rw [Nat.toString_eq_ofList_toDigits, String.toList_ofList]
  exact ⟨_, .inl rfl, Nat.toDigits_ne_nil, fun c hc =>
    Nat.isDigit_of_mem_toDigits (by decide) (by decide) hc, Nat.ofDigitChars_ten_toDigits.symm⟩

/-! ## Words -/

/-- A text is a word, with capitals for some of its letters or not. -/
def Spells (text word : List Char) : Prop :=
  List.Forall₂ (fun c d => c = d ∨ c = d.toUpper) text word

theorem toLower_eq_iff {c d : Char} (hd : d.toLower = d) :
    c.toLower = d ↔ c = d ∨ c = d.toUpper := by
  constructor
  · intro h
    by_cases hc : c.isUpper = true
    · have hcapital : c.toUpper = c :=
        Char.toUpper_eq_of_not_isLower (Char.not_isLower_of_isUpper hc)
      exact .inr (by rw [← h, Char.toUpper_toLower_eq_toUpper, hcapital])
    · exact .inl ((Char.toLower_eq_of_not_isUpper hc).symm.trans h)
  · rintro (rfl | rfl)
    · exact hd
    · rw [Char.toLower_toUpper_eq_toLower, hd]

theorem map_toLower_eq_iff {word : List Char} (hword : ∀ d ∈ word, d.toLower = d) :
    text.map Char.toLower = word ↔ Spells text word := by
  induction text generalizing word with
  | nil => cases word <;> simp [Spells]
  | cons c text ih =>
      cases word with
      | nil => simp [Spells]
      | cons d word =>
          obtain ⟨hd, hrest⟩ := List.forall_mem_cons.1 hword
          rw [Spells, List.forall₂_cons, List.map_cons, List.cons.injEq, toLower_eq_iff hd,
            ih hrest]
          rfl

theorem Spells.bare {word : List Char} (h : Spells text word) (hne : word ≠ [])
    (hword : ∀ d ∈ word, isWhiteSpace d = false ∧ isWhiteSpace d.toUpper = false) : Bare text := by
  refine ⟨?_, ?_⟩
  · rintro rfl
    exact hne (List.forall₂_nil_left_iff.1 h)
  · clear hne
    induction h with
    | nil => simp
    | cons hc _ ih =>
        obtain ⟨⟨hsmall, hcapital⟩, hrest⟩ := List.forall_mem_cons.1 hword
        refine List.forall_mem_cons.2 ⟨?_, ih hrest⟩
        rcases hc with rfl | rfl
        · exact hsmall
        · exact hcapital

end AnnotationScan.Text
