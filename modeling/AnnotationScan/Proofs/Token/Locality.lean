import AnnotationScan.Proofs.Token.Forms

/-!
# Forms of a text that is cut off

A number takes the same of the beginning of a text as of the text, unless it reaches beyond the
beginning.  A character or a string that lies in the beginning lies there as well if nothing follows.
-/

namespace AnnotationScan.Form

/-- A form never fails. -/
def Total (form : Form) : Prop := ∀ cs, form cs ≠ none

/-- Where a form reaches beyond the beginning of a text, it fails on the beginning or takes all of
it. -/
def Eager (form : Form) : Prop :=
  ∀ cs more n, form (cs ++ more) = some n → cs.length < n →
    form cs = none ∨ form cs = some cs.length

/-- A form takes the same of the beginning of a text as of the text, unless it reaches beyond. -/
structure Local (form : Form) : Prop where
  le : ∀ cs n, form cs = some n → n ≤ cs.length
  same : ∀ cs more, form (cs ++ more) = form cs ∨ ∃ n, form (cs ++ more) = some n ∧ cs.length < n

namespace Total

variable {holds : Char → Bool} {form : Form} {forms : List Form}

theorem many (holds : Char → Bool) : Total (many holds) := fun _ => Option.some_ne_none _

theorem optional (form : Form) : Total (optional form) := fun _ => Option.some_ne_none _

theorem nil : Total (chain []) := fun _ => Option.some_ne_none _

theorem cons (h : Total form) (hrest : Total (chain forms)) : Total (chain (form :: forms)) := by
  intro cs
  obtain ⟨n, hn⟩ := Option.ne_none_iff_exists'.1 (h cs)
  obtain ⟨more, hmore⟩ := Option.ne_none_iff_exists'.1 (hrest (cs.drop n))
  rw [chain_cons_eq_some.2 ⟨n, more, hn, hmore, rfl⟩]
  exact Option.some_ne_none _

end Total

namespace Eager

variable {holds : Char → Bool} {form : Form} {forms : List Form}

theorem one (holds : Char → Bool) : Eager (one holds) := by
  intro cs more n hn hlt
  obtain ⟨rfl, -⟩ := one_eq_some.1 hn
  obtain rfl := List.eq_nil_of_length_eq_zero (Nat.lt_one_iff.1 hlt)
  exact .inl rfl

theorem literal (spelling : List Char) : Eager (literal spelling) := by
  intro cs more n hn hlt
  obtain ⟨rfl, -⟩ := literal_eq_some.1 hn
  refine .inl (Option.eq_none_iff_forall_ne_some.2 fun n hn => ?_)
  obtain ⟨-, rest, rfl⟩ := literal_eq_some.1 hn
  rw [List.length_append] at hlt
  omega

theorem many (holds : Char → Bool) : Eager (many holds) := by
  intro cs more n hn hlt
  obtain rfl := Option.some.inj hn
  by_cases hall : (cs.takeWhile holds).length = cs.length
  · exact .inr (congrArg some hall)
  · rw [List.takeWhile_append, if_neg hall] at hlt
    exact absurd (List.takeWhile_prefix holds).length_le (Nat.not_le.2 hlt)

theorem nil : Eager (chain []) := by
  intro cs more n hn hlt
  obtain rfl := Option.some.inj hn
  exact absurd hlt (Nat.not_lt_zero _)

theorem optional_one (holds : Char → Bool) : Eager (optional (Form.one holds)) := by
  intro cs more n hn hlt
  cases cs with
  | nil => exact .inr rfl
  | cons c cs =>
      have hn : optional (Form.one holds) (c :: cs) = some n := hn
      have hle : n ≤ 1 := by
        obtain rfl := Option.some.inj hn
        rw [Form.one]
        split <;> simp
      rw [List.length_cons] at hlt
      omega

end Eager

namespace Local

variable {holds : Char → Bool} {form : Form} {forms : List Form}

theorem one (holds : Char → Bool) : Local (one holds) := by
  constructor
  · intro cs n hn
    obtain ⟨rfl, c, rest, rfl, -⟩ := one_eq_some.1 hn
    exact Nat.le_add_left 1 _
  · intro cs more
    cases cs with
    | cons c cs => exact .inl rfl
    | nil =>
        cases hone : Form.one holds more with
        | none => exact .inl hone
        | some n =>
            obtain ⟨rfl, -⟩ := one_eq_some.1 hone
            exact .inr ⟨1, hone, Nat.one_pos⟩

theorem many (holds : Char → Bool) : Local (many holds) := by
  constructor
  · intro cs n hn
    obtain rfl := Option.some.inj hn
    exact (List.takeWhile_prefix holds).length_le
  · intro cs more
    by_cases hall : (cs.takeWhile holds).length = cs.length
    · by_cases hmore : more.takeWhile holds = []
      · left
        simp [Form.many, List.takeWhile_append, hall, hmore]
      · right
        refine ⟨cs.length + (more.takeWhile holds).length, ?_, ?_⟩
        · simp [Form.many, List.takeWhile_append, hall]
        · exact Nat.lt_add_of_pos_right (List.length_pos_iff.2 hmore)
    · left
      simp [Form.many, List.takeWhile_append, hall]

theorem literal (spelling : List Char) : Local (literal spelling) := by
  constructor
  · intro cs n hn
    obtain ⟨rfl, rest, rfl⟩ := literal_eq_some.1 hn
    rw [List.length_append]
    exact Nat.le_add_right _ _
  · intro cs more
    cases hform : Form.literal spelling (cs ++ more) with
    | none =>
        refine .inl (Option.eq_none_iff_forall_ne_some.2 fun n hn => ?_).symm
        obtain ⟨rfl, rest, rfl⟩ := literal_eq_some.1 hn
        rw [literal_eq_some.2 ⟨rfl, rest ++ more, List.append_assoc _ _ _⟩] at hform
        cases hform
    | some n =>
        obtain ⟨rfl, rest, hrest⟩ := literal_eq_some.1 hform
        by_cases hle : spelling.length ≤ cs.length
        · obtain ⟨rest', rfl⟩ := List.prefix_of_prefix_length_le (⟨rest, hrest.symm⟩)
            (List.prefix_append cs more) hle
          exact .inl (literal_eq_some.2 ⟨rfl, rest', rfl⟩).symm
        · exact .inr ⟨_, rfl, Nat.lt_of_not_le hle⟩

theorem optional (h : Local form) : Local (optional form) := by
  constructor
  · intro cs n hn
    obtain rfl := Option.some.inj hn
    cases hform : form cs with
    | none => exact Nat.zero_le _
    | some n => exact h.le cs n hform
  · intro cs more
    rcases h.same cs more with hsame | ⟨n, hn, hlt⟩
    · left
      rw [Form.optional, Form.optional, hsame]
    · right
      exact ⟨n, by rw [Form.optional, hn, Option.getD_some], hlt⟩

theorem first (h : ∀ form ∈ forms, Local form) : Local (first forms) := by
  constructor
  · intro cs n hn
    obtain ⟨form, hform, hn⟩ := List.exists_of_findSome?_eq_some hn
    exact (h form hform).le cs n hn
  · intro cs more
    induction forms with
    | nil => exact .inl rfl
    | cons form forms ih =>
        have hrest := ih fun f hf => h f (List.mem_cons_of_mem form hf)
        simp only [Form.first, List.findSome?_cons] at hrest ⊢
        rcases (h form List.mem_cons_self).same cs more with hsame | ⟨n, hn, hlt⟩
        · rw [hsame]
          cases form cs with
          | none => exact hrest
          | some n => exact .inl rfl
        · rw [hn]
          exact .inr ⟨n, rfl, hlt⟩

theorem nil : Local (chain []) := by
  constructor
  · intro cs n hn
    obtain rfl := Option.some.inj hn
    exact Nat.zero_le _
  · exact fun _ _ => .inl rfl

/-- A chain is local if its parts are and where the first part reaches beyond the beginning of a
text the others fail on the text only if the chain fails on the beginning. -/
theorem cons_of_stuck (h : Local form) (hrest : Local (chain forms))
    (hstuck : ∀ cs more n, form (cs ++ more) = some n → cs.length < n →
      chain forms ((cs ++ more).drop n) = none → chain (form :: forms) cs = none) :
    Local (chain (form :: forms)) := by
  constructor
  · intro cs n hn
    obtain ⟨length, more, hlength, hmore, rfl⟩ := chain_cons_eq_some.1 hn
    have hfirst := h.le cs length hlength
    have hbound := hrest.le _ more hmore
    rw [List.length_drop] at hbound
    omega
  · intro cs more
    rcases h.same cs more with hsame | ⟨n, hn, hlt⟩
    · cases hform : form cs with
      | none =>
          left
          simp [chain, hsame, hform]
      | some n =>
          have hdrop : (cs ++ more).drop n = cs.drop n ++ more :=
            List.drop_append_of_le_length (h.le cs n hform)
          rcases hrest.same (cs.drop n) more with hsame' | ⟨m, hm, hlt⟩
          · left
            simp [chain, hsame, hform, hdrop, hsame']
          · right
            rw [List.length_drop] at hlt
            refine ⟨n + m, chain_cons_eq_some.2 ⟨n, m, hsame.trans hform, ?_, rfl⟩, by omega⟩
            rw [hdrop]
            exact hm
    · cases hmore : chain forms ((cs ++ more).drop n) with
      | none =>
          left
          rw [hstuck cs more n hn hlt hmore]
          simp [chain, hn, hmore]
      | some m =>
          right
          exact ⟨n + m, chain_cons_eq_some.2 ⟨n, m, hn, hmore, rfl⟩, by omega⟩

theorem cons_total (h : Local form) (hrest : Local (chain forms)) (htotal : Total (chain forms)) :
    Local (chain (form :: forms)) :=
  h.cons_of_stuck hrest fun _ _ _ _ _ hnone => absurd hnone (htotal _)

theorem cons (h : Local form) (heager : Eager form) (hrest : Local (chain forms))
    (hnil : chain forms [] = none) : Local (chain (form :: forms)) := by
  refine h.cons_of_stuck hrest fun cs more n hn hlt _ => ?_
  rcases heager cs more n hn hlt with hform | hform
  · simp [chain, hform]
  · simp [chain, hform, hnil]

theorem eager_cons (h : Local form) (heager : Eager form) (hrest : Local (chain forms))
    (hmore : Eager (chain forms)) : Eager (chain (form :: forms)) := by
  intro cs more n hn hlt
  obtain ⟨length, rest, hlength, hbehind, rfl⟩ := chain_cons_eq_some.1 hn
  rcases h.same cs more with hsame | ⟨n, hn, hbeyond⟩
  · rw [hsame] at hlength
    have hle := h.le cs length hlength
    rw [List.drop_append_of_le_length hle] at hbehind
    have hlt : (cs.drop length).length < rest := by
      rw [List.length_drop]
      omega
    rcases hmore (cs.drop length) more rest hbehind hlt with hdrop | hdrop
    · left
      simp [chain, hlength, hdrop]
    · right
      refine chain_cons_eq_some.2 ⟨length, _, hlength, hdrop, ?_⟩
      rw [List.length_drop]
      omega
  · rcases heager cs more n hn hbeyond with hform | hform
    · left
      simp [chain, hform]
    · cases hnil : chain forms [] with
      | none =>
          left
          simp [chain, hform, hnil]
      | some k =>
          right
          obtain rfl := Nat.le_zero.1 (hrest.le [] k hnil)
          refine chain_cons_eq_some.2 ⟨cs.length, 0, hform, ?_, rfl⟩
          rw [List.drop_length, hnil]

/-! ## Numbers and words -/

theorem word (start part : Char → Bool) :
    Local (chain [Form.one start, Form.many part]) ∧
      Eager (chain [Form.one start, Form.many part]) := by
  have hmany : Local (chain [Form.many part]) := (many part).cons_total nil .nil
  constructor
  · exact (one start).cons_total hmany ((Total.many _).cons .nil)
  · exact (one start).eager_cons (.one _) hmany ((many part).eager_cons (.many _) nil .nil)

theorem integerSuffix : Local integerSuffix ∧ Total Form.integerSuffix := by
  constructor
  · have hlong := (one (· = 'L')).optional.cons_total nil .nil
    exact (one _).optional.cons_total hlong ((Total.optional _).cons .nil)
  · exact (Total.optional _).cons ((Total.optional _).cons .nil)

theorem basedInteger (mark isDigit : Char → Bool) : Local (basedInteger mark isDigit) := by
  obtain ⟨hsuffix, htotal⟩ := integerSuffix
  have hgroup : Local (Form.group isDigit) := (word _ _).1
  have hdigits := hgroup.cons_total (hsuffix.cons_total nil .nil) (htotal.cons .nil)
  exact (one _).cons (.one _) ((one mark).cons (.one _) hdigits rfl) rfl

theorem exponent : Local exponent := by
  have hgroup : Local (Form.group Char.isDigit) := (word _ _).1
  have hsigned := (one fun c => c = '+' || c = '-').optional.cons (.optional_one _)
    (hgroup.cons_total nil .nil) rfl
  exact (one _).cons (.one _) hsigned rfl

/-- What may stand behind the digits of a float is taken as far as it is there. -/
theorem floatEnd : Local (chain [Form.optional floatMark]) ∧
    Total (chain [Form.optional floatMark]) := by
  constructor
  · exact (one _).optional.cons_total nil .nil
  · exact (Total.optional _).cons .nil

theorem fraction : Local fraction := by
  obtain ⟨hend, htotal⟩ := floatEnd
  have hgroup : Local (Form.group Char.isDigit) := (word _ _).1
  have hdigits := hgroup.cons_total (exponent.optional.cons_total hend htotal)
    ((Total.optional _).cons htotal)
  exact (one _).cons (.one _) hdigits rfl

theorem of_mem_numbers (h : form ∈ integers ++ floats) : Local form := by
  obtain ⟨hdigits, heager⟩ : Local (Form.group Char.isDigit) ∧ Eager (Form.group Char.isDigit) :=
    word _ _
  obtain ⟨hsuffix, htotal⟩ := integerSuffix
  simp only [integers, floats, List.cons_append, List.nil_append, List.mem_cons, List.not_mem_nil,
    or_false] at h
  rcases h with rfl | rfl | rfl | rfl | rfl | rfl | rfl
  · exact hdigits.cons_total (hsuffix.cons_total nil .nil) (htotal.cons .nil)
  · exact basedInteger _ _
  · exact basedInteger _ _
  · exact hdigits.cons heager (fraction.cons_total nil .nil) rfl
  · exact fraction
  · exact hdigits.cons heager (exponent.cons_total floatEnd.1 floatEnd.2) rfl
  · exact hdigits.cons heager ((one _).cons_total nil .nil) rfl

end Local

/-! ## Characters and strings -/

/-- What a form takes of a text it also takes of a beginning of the text that holds it. -/
def Kept (form : Form) : Prop :=
  ∀ cs more n, form (cs ++ more) = some n → n ≤ cs.length → form cs = some n

namespace Kept

variable {form : Form} {forms : List Form}

theorem of_local (h : Local form) : Kept form := by
  intro cs more n hn hle
  rcases h.same cs more with hsame | ⟨m, hm, hlt⟩
  · rw [← hsame, hn]
  · obtain rfl := Option.some.inj (hn.symm.trans hm)
    exact absurd hle (Nat.not_le.2 hlt)

theorem cons (h : Kept form) (hrest : Kept (chain forms)) : Kept (chain (form :: forms)) := by
  intro cs more n hn hle
  obtain ⟨length, rest, hlength, hmore, rfl⟩ := chain_cons_eq_some.1 hn
  have hbound : length ≤ cs.length := Nat.le_trans (Nat.le_add_right _ _) hle
  rw [List.drop_append_of_le_length hbound] at hmore
  refine chain_cons_eq_some.2 ⟨length, rest, h cs more length hlength hbound, ?_, rfl⟩
  exact hrest _ more rest hmore (by rw [List.length_drop]; omega)

theorem character : Kept character := by
  have hquote : Local (Form.one (· = '\'')) := .one _
  have hescape : Local (chain [Form.one (· = '\\'), Form.one fun c => "tbnr'\"\\$".toList.contains c]) :=
    (Local.one _).cons (.one _) ((Local.one _).cons_total .nil .nil) rfl
  have hdigit : Local (Form.one isHexDigit) := .one _
  have hunit : Local (chain [Form.literal ['\\', 'u'], Form.one isHexDigit, Form.one isHexDigit,
      Form.one isHexDigit, Form.one isHexDigit]) :=
    (Local.literal _).cons (.literal _) (hdigit.cons (.one _) (hdigit.cons (.one _)
      (hdigit.cons (.one _) (hdigit.cons_total .nil .nil) rfl) rfl) rfl) rfl
  refine .cons (.of_local hquote) (.cons (.of_local (.first ?_)) (.cons (.of_local hquote)
    (.of_local .nil)))
  simp only [List.mem_cons, List.not_mem_nil, or_false]
  rintro form (rfl | rfl | rfl)
  · exact .one _
  · exact hescape
  · exact hunit

end Kept

theorem lt_of_stringEnd {place : StringPlace} {cs : List Char} {read n : Nat}
    (h : stringEnd place cs read = .ok n) : read < n := by
  fun_induction stringEnd place cs read with
  | case1 =>
      obtain rfl := Except.ok.inj h
      exact Nat.lt_succ_self _
  | case4 | case10 | case12 => cases h
  | _ =>
      rename_i ih
      have hlt := ih h
      omega

theorem succ_lt_of_stringEnd {place : StringPlace} {c : Char} {cs : List Char} {read n : Nat}
    (hquote : place = .text [] → c ≠ '"') (h : stringEnd place (c :: cs) read = .ok n) :
    read + 1 < n := by
  generalize htext : c :: cs = text at h
  fun_cases stringEnd place text read with
  | case1 => exact absurd (List.cons.inj htext).1 (hquote rfl)
  | case4 | case10 => simp [stringEnd, *] at h
  | case12 => cases htext
  | _ =>
      simp only [stringEnd, *] at h
      have hlt := lt_of_stringEnd h
      omega

theorem stringEnd_kept {place : StringPlace} {cs more : List Char} {read n : Nat}
    (h : stringEnd place (cs ++ more) read = .ok n) (hle : n ≤ read + cs.length) :
    stringEnd place cs read = .ok n := by
  fun_induction stringEnd place cs read with
  | case1 => simpa [stringEnd] using h
  | case4 | case10 => simp [stringEnd, *] at h
  | case11 place c cs read hquote hquote' hdollar hescape hopen hclose hclose' hquote'' hfeed ih =>
      cases cs with
      | nil =>
          -- an escape or a template may open here, but then the string ends behind it
          have hlt := succ_lt_of_stringEnd (fun hplace hc => hquote hplace hc) h
          exact absurd hle (Nat.not_le.2 hlt)
      | cons d ds =>
          rw [List.cons_append, List.cons_append, stringEnd, if_neg hfeed] at h
          · exact ih h (by simp only [List.length_cons] at hle ⊢; omega)
          · exact hquote
          · exact hquote'
          · intro outer cs hplace hc hcs
            exact hdollar outer ds hplace hc (by rw [(List.cons.inj hcs).1])
          · exact fun outer _ _ hplace hc _ => hescape outer d ds hplace hc rfl
          · exact hopen
          · exact hclose
          · exact hclose'
          · exact hquote''
  | case12 => exact absurd hle (Nat.not_le.2 (lt_of_stringEnd h))
  | _ =>
      rename_i ih
      simp only [List.length_cons] at hle
      refine ih ?_ (by omega)
      simpa [stringEnd, *] using h

theorem add_three_le_of_rawStringEnd {cs : List Char} {read n : Nat}
    (h : rawStringEnd cs read = some n) : read + 3 ≤ n := by
  fun_induction rawStringEnd cs read with
  | case1 =>
      obtain rfl := Option.some.inj h
      exact Nat.le_add_right _ _
  | case2 c cs read _ ih =>
      have hle := ih h
      omega
  | case3 => cases h

theorem rawStringEnd_kept {cs more : List Char} {read n : Nat}
    (h : rawStringEnd (cs ++ more) read = some n) (hle : n ≤ read + cs.length) :
    rawStringEnd cs read = some n := by
  fun_induction rawStringEnd cs read with
  | case1 cs read =>
      have hquotes := Kept.of_local (.many (· = '"')) cs more _ rfl
      simp only [List.cons_append, rawStringEnd, List.length_cons, Option.some.injEq] at h hle ⊢
      rw [← Option.some.inj (hquotes (by omega))] at h
      exact h
  | case2 c cs read hclosing ih =>
      have hbound := add_three_le_of_rawStringEnd h
      rw [List.length_cons] at hle
      obtain ⟨d, e, ds, rfl⟩ : ∃ d e ds, cs = d :: e :: ds := by
        rcases cs with _ | ⟨d, _ | ⟨e, ds⟩⟩
        · simp only [List.length_nil] at hle
          omega
        · simp only [List.length_cons, List.length_nil] at hle
          omega
        · exact ⟨d, e, ds, rfl⟩
      rw [List.cons_append, rawStringEnd] at h
      · exact ih h (by omega)
      · intro rest hc hcs
        obtain ⟨rfl, htail⟩ := List.cons.inj hcs
        obtain ⟨rfl, -⟩ := List.cons.inj htail
        exact hclosing ds hc rfl
  | case3 =>
      have hbound := add_three_le_of_rawStringEnd h
      rw [List.length_nil] at hle
      omega

end AnnotationScan.Form
