import AnnotationScan.Token.Comment
import AnnotationScan.Token.Number
import AnnotationScan.Token.StringLiteral

/-!
# Forms in front of a gap

A gap is a blank or a line feed.  Most forms hold no gap at all, so that they take the same
characters whatever stands behind a gap.  A form that may hold gaps takes the same characters where
it is closed in front of the gap.
-/

namespace AnnotationScan.Form

def gaps : List Char := [' ', '\t', '\r', '\x0c', '\n']

def isGap (c : Char) : Bool := gaps.contains c

def Stops (holds : Char → Bool) : Prop := gaps.all (!holds ·) = true

instance (holds : Char → Bool) : Decidable (Stops holds) :=
  inferInstanceAs (Decidable (_ = true))

theorem Stops.of_isGap {holds : Char → Bool} (h : Stops holds) {c : Char} (hc : isGap c = true) :
    holds c = false := by
  rw [← Bool.not_eq_true']
  exact List.all_eq_true.1 h c (List.contains_iff_mem.1 hc)

theorem Stops.or {holds holds' : Char → Bool} (h : Stops holds) (h' : Stops holds') :
    Stops fun c => holds c || holds' c := by
  refine List.all_eq_true.2 fun c hc => ?_
  have hgap := List.contains_iff_mem.2 hc
  simp [h.of_isGap hgap, h'.of_isGap hgap]

theorem one_eq_some {holds : Char → Bool} {cs : List Char} {n : Nat} :
    one holds cs = some n ↔ n = 1 ∧ ∃ c rest, cs = c :: rest ∧ holds c = true := by
  cases cs with
  | nil => simp [one]
  | cons c cs =>
      simp only [one, Option.ite_none_right_eq_some, Option.some.injEq]
      constructor
      · rintro ⟨hc, rfl⟩
        exact ⟨rfl, c, cs, rfl, hc⟩
      · rintro ⟨rfl, _, _, hcs, hc⟩
        exact ⟨(List.cons.inj hcs).1 ▸ hc, rfl⟩

theorem literal_eq_some {spelling cs : List Char} {n : Nat} :
    literal spelling cs = some n ↔ n = spelling.length ∧ ∃ rest, cs = spelling ++ rest := by
  simp only [literal, Option.ite_none_right_eq_some, Option.some.injEq, List.isPrefixOf_iff_prefix]
  constructor
  · rintro ⟨⟨rest, rfl⟩, rfl⟩
    exact ⟨rfl, rest, rfl⟩
  · rintro ⟨rfl, rest, rfl⟩
    exact ⟨⟨rest, rfl⟩, rfl⟩

theorem chain_cons_eq_some {form : Form} {forms : List Form} {cs : List Char} {n : Nat} :
    chain (form :: forms) cs = some n ↔ ∃ length more, form cs = some length ∧
      chain forms (cs.drop length) = some more ∧ length + more = n := by
  simp only [chain, Option.bind_eq_bind, Option.pure_def, Option.bind_eq_some_iff,
    Option.some.injEq]
  constructor
  · rintro ⟨length, hlength, more, hmore, hn⟩
    exact ⟨length, more, hlength, hmore, hn⟩
  · rintro ⟨length, more, hlength, hmore, hn⟩
    exact ⟨length, hlength, more, hmore, hn⟩

theorem many_of_all {holds : Char → Bool} {cs : List Char} (h : cs.all holds = true) :
    many holds cs = some cs.length := by
  induction cs with
  | nil => rfl
  | cons c cs ih =>
      rw [List.all_cons, Bool.and_eq_true] at h
      have hrest := Option.some.inj (ih h.2)
      simp [many, h.1, hrest]

theorem quotes_of_append {gap : Char} (hgap : isGap gap = true) {cs rest rest' : List Char}
    (h : cs ++ gap :: rest = '"' :: '"' :: rest') : ∃ rest'', cs = '"' :: '"' :: rest'' := by
  have hquote : gap ≠ '"' := by
    rintro rfl
    cases hgap
  match cs with
  | [] => exact absurd (List.cons.inj h).1 hquote
  | [_] => exact absurd (List.cons.inj (List.cons.inj h).2).1 hquote
  | c :: d :: cs =>
      obtain ⟨rfl, htail⟩ := List.cons.inj h
      obtain ⟨rfl, -⟩ := List.cons.inj htail
      exact ⟨cs, rfl⟩

/-- What a form takes of a text lies inside it, and it is the same where the text goes on with a
gap. -/
structure SettledAt (form : Form) (cs : List Char) : Prop where
  le : ∀ n, form cs = some n → n ≤ cs.length
  same : ∀ gap rest, isGap gap = true → form (cs ++ gap :: rest) = form cs

/-- A form that takes no gap of any text. -/
def Settled (form : Form) : Prop := ∀ cs, SettledAt form cs

namespace SettledAt

variable {holds : Char → Bool} {form : Form} {forms : List Form} {cs : List Char}

theorem one_cons (holds : Char → Bool) (c : Char) (cs : List Char) :
    SettledAt (one holds) (c :: cs) := by
  refine ⟨fun n hn => ?_, fun gap rest _ => rfl⟩
  obtain ⟨rfl, -⟩ := one_eq_some.1 hn
  simp

theorem many_of_mem {c : Char} (hc : c ∈ cs) (hholds : holds c = false) :
    SettledAt (many holds) cs := by
  refine ⟨fun n hn => ?_, fun gap rest _ => ?_⟩
  · obtain rfl := Option.some.inj hn
    exact (List.takeWhile_prefix holds).length_le
  · have hstop : (cs.takeWhile holds).length ≠ cs.length := by
      intro hlength
      have hall : (cs.takeWhile holds).all holds = true := List.all_takeWhile
      rw [(List.takeWhile_prefix holds).eq_of_length hlength] at hall
      simp [List.all_eq_true.1 hall c hc] at hholds
    simp [many, List.takeWhile_append, hstop]

theorem optional (h : SettledAt form cs) : SettledAt (optional form) cs := by
  refine ⟨fun n hn => ?_, fun gap rest hgap => ?_⟩
  · obtain rfl := Option.some.inj hn
    cases hform : form cs with
    | none => simp
    | some n => exact h.le n hform
  · rw [Form.optional, Form.optional, h.same gap rest hgap]

theorem first (h : ∀ form ∈ forms, SettledAt form cs) : SettledAt (first forms) cs := by
  refine ⟨fun n hn => ?_, fun gap rest hgap => ?_⟩
  · obtain ⟨form, hform, hn⟩ := List.exists_of_findSome?_eq_some hn
    exact (h form hform).le n hn
  · induction forms with
    | nil => rfl
    | cons form forms ih =>
        have hrest := ih fun f hf => h f (List.mem_cons_of_mem form hf)
        simp only [Form.first, List.findSome?_cons] at hrest ⊢
        rw [(h form List.mem_cons_self).same gap rest hgap, hrest]

theorem chain_nil (cs : List Char) : SettledAt (chain []) cs :=
  ⟨fun n hn => by simp [← Option.some.inj hn], fun _ _ _ => rfl⟩

/-- A chain is settled if its first part is, and the others are where that part ends. -/
theorem chain_cons (h : SettledAt form cs)
    (hrest : ∀ n, form cs = some n → SettledAt (chain forms) (cs.drop n)) :
    SettledAt (chain (form :: forms)) cs := by
  cases hform : form cs with
  | none =>
      refine ⟨fun n hn => by simp [chain, hform] at hn, fun gap rest hgap => ?_⟩
      simp [chain, h.same gap rest hgap, hform]
  | some n =>
      have hle := h.le n hform
      have hrest := hrest n hform
      refine ⟨fun k hk => ?_, fun gap rest hgap => ?_⟩
      · obtain ⟨length, more, hlength, hmore, rfl⟩ := chain_cons_eq_some.1 hk
        obtain rfl := Option.some.inj (hform.symm.trans hlength)
        have hbound := hrest.le more hmore
        rw [List.length_drop] at hbound
        omega
      · simp [chain, h.same gap rest hgap, hform, List.drop_append_of_le_length hle,
          hrest.same gap rest hgap]

end SettledAt

namespace Settled

variable {holds : Char → Bool} {form : Form} {forms : List Form}

theorem one (h : Stops holds) : Settled (one holds) := by
  intro cs
  cases cs with
  | nil => exact ⟨nofun, fun gap rest hgap => by simp [Form.one, h.of_isGap hgap]⟩
  | cons c cs => exact .one_cons holds c cs

theorem many (h : Stops holds) : Settled (many holds) := by
  intro cs
  refine ⟨fun n hn => ?_, fun gap rest hgap => ?_⟩
  · obtain rfl := Option.some.inj hn
    exact (List.takeWhile_prefix holds).length_le
  · have hstop : (gap :: rest).takeWhile holds = [] := by simp [h.of_isGap hgap]
    simp only [Form.many, List.takeWhile_append, hstop, List.append_nil]
    split
    case isTrue hlength => rw [hlength]
    case isFalse => rfl

theorem literal {spelling : List Char} (h : spelling.all (!isGap ·) = true) :
    Settled (literal spelling) := by
  intro cs
  refine ⟨fun n hn => ?_, fun gap rest hgap => ?_⟩
  · obtain ⟨rfl, rest, rfl⟩ := literal_eq_some.1 hn
    simp
  · have hsame : spelling.isPrefixOf (cs ++ gap :: rest) = spelling.isPrefixOf cs := by
      induction spelling generalizing cs with
      | nil => simp
      | cons c spelling ih =>
          rw [List.all_cons, Bool.and_eq_true] at h
          cases cs with
          | nil =>
              have hne : c ≠ gap := by
                rintro rfl
                simp [hgap] at h
              simp [List.isPrefixOf, hne]
          | cons c' cs => simp [List.isPrefixOf, ih h.2 cs]
    simp [Form.literal, hsame]

theorem optional (h : Settled form) : Settled (optional form) := fun cs => (h cs).optional

theorem nil : Settled (chain []) := SettledAt.chain_nil

theorem cons (h : Settled form) (hrest : Settled (chain forms)) :
    Settled (chain (form :: forms)) :=
  fun cs => (h cs).chain_cons fun n _ => hrest (cs.drop n)

theorem group {isDigit : Char → Bool} (h : Stops isDigit) : Settled (group isDigit) :=
  cons (one h) (cons (many (h.or (by decide))) nil)

theorem integerSuffix : Settled integerSuffix :=
  cons (optional (one (by decide))) (cons (optional (one (by decide))) nil)

theorem basedInteger {mark isDigit : Char → Bool} (hmark : Stops mark) (hdigit : Stops isDigit) :
    Settled (basedInteger mark isDigit) :=
  cons (one (by decide)) (cons (one hmark) (cons (group hdigit) (cons integerSuffix nil)))

theorem exponent : Settled exponent :=
  cons (one (by decide)) (cons (optional (one (by decide))) (cons (group (by decide)) nil))

theorem floatMark : Settled floatMark := one (by decide)

theorem fraction : Settled fraction :=
  cons (one (by decide)) (cons (group (by decide))
    (cons (optional exponent) (cons (optional floatMark) nil)))

theorem of_mem_numbers (h : form ∈ integers ++ floats) : Settled form := by
  simp only [integers, floats, List.cons_append, List.nil_append, List.mem_cons, List.not_mem_nil,
    or_false] at h
  have hdigits : Settled (Form.group Char.isDigit) := group (by decide)
  rcases h with rfl | rfl | rfl | rfl | rfl | rfl | rfl
  · exact cons hdigits (cons integerSuffix nil)
  · exact basedInteger (by decide) (by decide)
  · exact basedInteger (by decide) (by decide)
  · exact cons hdigits (cons fraction nil)
  · exact fraction
  · exact cons hdigits (cons exponent (cons (optional floatMark) nil))
  · exact cons hdigits (cons floatMark nil)

end Settled

/-- What has the form begins with a character of a class, and is not empty. -/
def Opens (holds : Char → Bool) (form : Form) : Prop :=
  ∀ cs n, form cs = some n → 0 < n ∧ ∃ c rest, cs = c :: rest ∧ holds c = true

namespace Opens

variable {holds : Char → Bool} {form : Form} {forms : List Form}

theorem one (holds : Char → Bool) : Opens holds (one holds) := by
  intro cs n hn
  obtain ⟨rfl, hstart⟩ := one_eq_some.1 hn
  exact ⟨Nat.one_pos, hstart⟩

theorem literal {c : Char} {spelling : List Char} (hc : holds c = true) :
    Opens holds (literal (c :: spelling)) := by
  intro cs n hn
  obtain ⟨rfl, rest, rfl⟩ := literal_eq_some.1 hn
  exact ⟨Nat.succ_pos _, c, spelling ++ rest, rfl, hc⟩

theorem chain (h : Opens holds form) : Opens holds (chain (form :: forms)) := by
  intro cs n hn
  obtain ⟨length, more, hlength, -, rfl⟩ := chain_cons_eq_some.1 hn
  obtain ⟨hpos, hstart⟩ := h cs length hlength
  exact ⟨by omega, hstart⟩

theorem mono {holds' : Char → Bool} (h : Opens holds form)
    (hholds : ∀ c, holds c = true → holds' c = true) : Opens holds' form := by
  intro cs n hn
  obtain ⟨hpos, c, rest, hcs, hc⟩ := h cs n hn
  exact ⟨hpos, c, rest, hcs, hholds c hc⟩

theorem of_mem_numbers (h : form ∈ integers ++ floats) :
    Opens (fun c => c.isDigit || c = '.') form := by
  have hgroup : Opens Char.isDigit (group Char.isDigit) := chain (one _)
  simp only [integers, floats, basedInteger, List.cons_append, List.nil_append, List.mem_cons,
    List.not_mem_nil, or_false] at h
  rcases h with rfl | rfl | rfl | rfl | rfl | rfl | rfl
  · exact chain (hgroup.mono fun c hc => by simp [hc])
  · exact chain ((one _).mono fun c hc => by simp [of_decide_eq_true hc])
  · exact chain ((one _).mono fun c hc => by simp [of_decide_eq_true hc])
  · exact chain (hgroup.mono fun c hc => by simp [hc])
  · exact chain ((one _).mono fun c hc => by simp [of_decide_eq_true hc])
  · exact chain (hgroup.mono fun c hc => by simp [hc])
  · exact chain (hgroup.mono fun c hc => by simp [hc])

end Opens

/-- Only a quote with nothing behind it may become a character by a gap. -/
theorem settledAt_character {cs : List Char} (h : cs ≠ ['\'']) : SettledAt character cs := by
  refine (Settled.one (by decide) cs).chain_cons fun n hn => ?_
  obtain ⟨rfl, quote, cs, rfl, hquote⟩ := one_eq_some.1 hn
  obtain rfl : quote = '\'' := of_decide_eq_true hquote
  obtain ⟨c, cs, rfl⟩ := List.exists_cons_of_ne_nil (show cs ≠ [] by simpa using h)
  have hescape : Settled (chain [one (· = '\\'), one fun c => "tbnr'\"\\$".toList.contains c]) :=
    .cons (.one (by decide)) (.cons (.one (by decide)) .nil)
  have hdigit : Settled (one isHexDigit) := .one (by decide)
  have hunit : Settled (chain [literal ['\\', 'u'], one isHexDigit, one isHexDigit,
      one isHexDigit, one isHexDigit]) :=
    .cons (.literal (by decide)) (.cons hdigit (.cons hdigit (.cons hdigit (.cons hdigit .nil))))
  refine .chain_cons (.first ?_) fun n _ => (Settled.cons (.one (by decide)) .nil) _
  simp only [List.mem_cons, List.not_mem_nil, or_false]
  rintro form (rfl | rfl | rfl)
  · exact .one_cons _ c cs
  · exact hescape _
  · exact hunit _

/-! ## Comments and strings -/

theorem closing?_append {inner : Nat} {cs : List Char} {read n : Nat}
    (h : closing? inner cs read = some n) (rest : List Char) :
    closing? inner (cs ++ rest) read = some n ∧ n ≤ read + cs.length := by
  fun_induction closing? inner cs read with
  | case1 inner cs read ih | case3 cs read inner ih =>
      obtain ⟨hsame, hle⟩ := ih h
      refine ⟨by simpa [closing?] using hsame, ?_⟩
      simp only [List.length_cons]
      omega
  | case2 cs read =>
      obtain rfl := Option.some.inj h
      refine ⟨by simp [closing?], ?_⟩
      simp only [List.length_cons]
      omega
  | case4 inner c cs read hopening hclosing hclosing' ih =>
      obtain ⟨hsame, hle⟩ := ih h
      have hne : cs ≠ [] := by
        rintro rfl
        simp [closing?] at h
      obtain ⟨d, ds, rfl⟩ := List.exists_cons_of_ne_nil hne
      refine ⟨?_, by simp only [List.length_cons] at hle ⊢; omega⟩
      rw [List.cons_append, List.cons_append, closing?]
      · exact hsame
      · exact fun _ hc hcs => hopening ds hc (by rw [(List.cons.inj hcs).1])
      · exact fun _ hinner hc hcs => hclosing ds hinner hc (by rw [(List.cons.inj hcs).1])
      · exact fun inner _ hinner hc hcs =>
          hclosing' inner ds hinner hc (by rw [(List.cons.inj hcs).1])
  | case5 => cases h

theorem stringEnd_append {place : StringPlace} {cs : List Char} {read n : Nat}
    (h : stringEnd place cs read = .ok n) (rest : List Char) :
    stringEnd place (cs ++ rest) read = .ok n ∧ n ≤ read + cs.length := by
  fun_induction stringEnd place cs read with
  | case1 cs read =>
      obtain rfl : read + 1 = n := Except.ok.inj h
      refine ⟨by simp [stringEnd], ?_⟩
      simp only [List.length_cons]
      omega
  | case4 | case10 | case12 => cases h
  | case11 place c cs read hquote hquote' hdollar hescape hopen hclose hclose' hquote'' hfeed ih =>
      obtain ⟨hsame, hle⟩ := ih h
      have hne : cs ≠ [] := by
        rintro rfl
        simp [stringEnd] at h
      obtain ⟨d, ds, rfl⟩ := List.exists_cons_of_ne_nil hne
      refine ⟨?_, by simp only [List.length_cons] at hle ⊢; omega⟩
      rw [List.cons_append, List.cons_append, stringEnd, if_neg hfeed]
      · exact hsame
      · exact hquote
      · exact hquote'
      · intro outer cs hplace hc hcs
        exact hdollar outer ds hplace hc (by rw [(List.cons.inj hcs).1])
      · exact fun outer _ _ hplace hc _ => hescape outer d ds hplace hc rfl
      · exact hopen
      · exact hclose
      · exact hclose'
      · exact hquote''
  | _ =>
      rename_i ih
      obtain ⟨hsame, hle⟩ := ih h
      refine ⟨by simp [stringEnd, *], ?_⟩
      simp only [List.length_cons]
      omega

theorem rawStringEnd_append {cs : List Char} {read n : Nat} (h : rawStringEnd cs read = some n)
    {gap : Char} (hgap : isGap gap = true) (rest : List Char) :
    rawStringEnd (cs ++ gap :: rest) read = some n ∧ n ≤ read + cs.length := by
  fun_induction rawStringEnd cs read with
  | case1 cs read =>
      have hquotes : SettledAt (many (· = '"')) cs := Settled.many (by decide) cs
      have hle := hquotes.le _ rfl
      have hsame := Option.some.inj (hquotes.same gap rest hgap)
      obtain rfl := Option.some.inj h
      refine ⟨by simp only [List.cons_append, rawStringEnd, hsame], ?_⟩
      simp only [List.length_cons]
      omega
  | case2 c cs read hclosing ih =>
      obtain ⟨hsame, hle⟩ := ih h
      refine ⟨?_, by simp only [List.length_cons]; omega⟩
      rw [List.cons_append, rawStringEnd]
      · exact hsame
      · intro rest' hc hcs
        obtain ⟨ds, rfl⟩ := quotes_of_append hgap hcs
        exact hclosing ds hc rfl
  | case3 => cases h

end AnnotationScan.Form
