import AnnotationScan.Proofs.Token.Alone

/-!
# Tokens that touch

A row of names and signs is written without gaps, except where two of them would be read as one.
The pieces of the text are those names and signs again.
-/

namespace AnnotationScan

/-- What a token is and how it is written. -/
abbrev Reading := TokenKind × String

namespace Reading

def sign (kind : TokenKind) : Reading := (kind, kind.spelling?.getD "")

def isWord (reading : Reading) : Bool :=
  reading.1 = .identifier || TokenKind.hardKeywords.contains reading.1

/-- The signs that types and annotations are made of. -/
def signs : List TokenKind :=
  [.atSign, .leftParen, .rightParen, .comma, .colon, .dot, .question, .arrow, .less, .greater, .star,
    .ampersand]

/-- A name without quotes that is no hard keyword. -/
structure IsName (text : String) : Prop where
  start : ∃ c cs, text.toList = c :: cs ∧ Piece.isWordStart c = true ∧ cs.all Piece.isWordPart = true
  notHard : TokenKind.keyword? text = none

/-- Names, signs and the word `in`. -/
inductive Legible : Reading → Prop
  | name {text : String} (h : IsName text) : Legible (.identifier, text)
  | sign {kind : TokenKind} (h : kind ∈ signs) : Legible (sign kind)
  | inKeyword : Legible (sign .inKeyword)

/-- Whether a character behind a token is no part of it and of no longer token. -/
def stopsAt (reading : Reading) (d : Char) : Bool :=
  if reading.isWord then !Piece.opensWordPart d
  else !d.isDigit && TokenKind.signs.all fun kind =>
    !(reading.2.toList ++ [d]).isPrefixOf (kind.spelling?.getD "").toList

/-- Two tokens that are read as something else where nothing stands between them. -/
def clash (a b : Reading) : Bool :=
  a.isWord && b.isWord || [(TokenKind.question, TokenKind.dot), (.question, .colon),
    (.colon, .colon), (.dot, .dot), (.ampersand, .ampersand)].contains (a.1, b.1)

/-- What stands behind a token is read apart from it. -/
def Ends (reading : Reading) (rest : List Char) : Prop :=
  ∀ d ∈ rest.head?, reading.stopsAt d = true

end Reading

namespace Piece

open TokenKind (signs hardKeywords)

variable {reader : Reader} {kind : TokenKind} {c : Char} {cs rest : List Char}

theorem plain_of_starts (h : Starts reader c) (hc : c ∉ " \t\r\x0c\n/`'\"".toList) :
    reader ∈ plainReaders := by
  cases h with
  | plain hreader => exact hreader
  | blanks _ hblank =>
      simp only [isInlineBlank, Bool.or_eq_true, decide_eq_true_eq] at hblank
      rcases hblank with ((rfl | rfl) | rfl) | rfl <;> exact absurd (by decide) hc
  | lineFeed _ heq | comment _ heq | name _ heq | character _ heq | string _ heq =>
      subst heq
      exact absurd (by decide) hc

theorem number_eq_none {form : Form} (h : form ∈ Form.integers ++ Form.floats)
    (hrest : ∀ d ∈ rest.head?, d.isDigit = false) : form ('.' :: rest) = none := by
  have hdot : Char.isDigit '.' = false := rfl
  have hgroup : Form.group Char.isDigit rest = none := by
    cases rest with
    | nil => rfl
    | cons d rest => simp [Form.group, Form.chain, Form.one, hrest d rfl]
  simp only [Form.integers, Form.floats, List.cons_append, List.nil_append, List.mem_cons,
    List.not_mem_nil, or_false] at h
  rcases h with rfl | rfl | rfl | rfl | rfl | rfl | rfl
  case inr.inr.inr.inr.inl => simp [Form.fraction, Form.chain, Form.one, hgroup]
  all_goals simp [Form.basedInteger, Form.group, Form.chain, Form.one, hdot]

theorem atStart_of_longest {text : List Char} {kind : PieceKind}
    (h : longest (text ++ rest) = (kind, text.length)) : atStart (text ++ rest) = ⟨kind, text⟩ := by
  rw [atStart, h, List.take_left]

/-- A character that begins signs only. -/
def opensSign (c : Char) : Bool :=
  !" \t\r\x0c\n/`'\"".toList.contains c && !isWordStart c && !c.isDigit &&
    hardKeywords.all fun kind => (kind.spelling?.getD "").toList.head?.any (· != c)

theorem sign_facts : ∀ kind ∈ Reading.signs, kind ∈ signs ∧ (Reading.sign kind).isWord = false ∧
    (Reading.sign kind).2.toList.head?.any opensSign = true ∧
    ((Reading.sign kind).2.toList.head? = some '.' → (Reading.sign kind).2.toList = ['.']) := by
  decide

theorem eq_of_spelling : ∀ kind ∈ Reading.signs, ∀ other ∈ signs,
    (other.spelling?.getD "").toList = (Reading.sign kind).2.toList → other = kind := by
  decide

/-- Where a sign may begin, nothing but signs is read, save numbers behind a point. -/
theorem spelled_of_opensSign (hreader : reader ∈ readers) {reading : PieceKind × Nat}
    (hreading : reader (c :: rest) = some reading) (hc : opensSign c = true)
    (hdot : c = '.' → ∀ d ∈ rest.head?, d.isDigit = false) :
    ∃ kind ∈ signs, reader = spelled kind := by
  obtain ⟨-, c', rest', hcs, hstarts⟩ := starts_of_mem hreader hreading
  obtain ⟨rfl, rfl⟩ := List.cons.inj hcs
  simp only [opensSign, Bool.and_eq_true, Bool.not_eq_true', List.all_eq_true] at hc
  obtain ⟨⟨⟨hplain, hword⟩, hdigit⟩, hkeywords⟩ := hc
  have hplain : c ∉ " \t\r\x0c\n/`'\"".toList := by
    intro hmem
    rw [List.contains_iff_mem.2 hmem] at hplain
    cases hplain
  rcases mem_plainReaders (plain_of_starts hstarts hplain) with ⟨kind, hkind, rfl⟩ |
    ⟨kind, hkind, rfl⟩ | rfl | ⟨kind, form, hform, rfl⟩
  · have hspelled := (Option.filter_eq_some_iff.1 hreading).1
    obtain ⟨n, hn, -⟩ := ofForm_eq_some.1 hspelled
    obtain ⟨-, more, hmore⟩ := Form.literal_eq_some.1 hn
    have hfirst := hkeywords kind hkind
    cases hspelling : (kind.spelling?.getD "").toList with
    | nil => simp [hspelling] at hfirst
    | cons d ds =>
        rw [hspelling] at hmore hfirst
        obtain ⟨rfl, -⟩ := List.cons.inj hmore
        simp at hfirst
  · exact ⟨kind, hkind, rfl⟩
  · obtain ⟨n, hn, -⟩ := ofForm_eq_some.1 hreading
    obtain ⟨_, _, hone, -⟩ := Form.chain_cons_eq_some.1 hn
    obtain ⟨-, d, ds, hds, hd⟩ := Form.one_eq_some.1 hone
    obtain ⟨rfl, -⟩ := List.cons.inj hds
    rw [hword] at hd
    cases hd
  · obtain ⟨n, hn, -⟩ := ofForm_eq_some.1 hreading
    obtain ⟨-, d, ds, hds, hd⟩ := Form.Opens.of_mem_numbers hform _ n hn
    obtain ⟨rfl, -⟩ := List.cons.inj hds
    have hd : (c.isDigit || decide (c = '.')) = true := hd
    rw [hdigit, Bool.false_or, decide_eq_true_eq] at hd
    subst hd
    rw [number_eq_none hform (hdot rfl)] at hn
    cases hn

theorem atStart_sign (hkind : kind ∈ Reading.signs) (hends : (Reading.sign kind).Ends rest) :
    atStart ((Reading.sign kind).2.toList ++ rest) =
      ⟨.token kind, (Reading.sign kind).2.toList⟩ := by
  obtain ⟨hsign, hword, hopens, hdot⟩ := sign_facts kind hkind
  have hsame := eq_of_spelling kind hkind
  have hown : spelled kind ((Reading.sign kind).2.toList ++ rest) =
      some (.token kind, (Reading.sign kind).2.toList.length) :=
    ofForm_eq_some.2 ⟨_, Form.literal_eq_some.2 ⟨rfl, rest, rfl⟩, rfl⟩
  have hstops : ∀ d ∈ rest.head?, d.isDigit = false ∧ ∀ other ∈ signs,
      ¬((Reading.sign kind).2.toList ++ [d]) <+: (other.spelling?.getD "").toList := by
    intro d hd
    have hstop := hends d hd
    rw [Reading.stopsAt, hword] at hstop
    simpa [← Bool.not_eq_true, List.isPrefixOf_iff_prefix] using hstop
  have hreaders : spelled kind ∈ readers := by
    rw [readers]
    exact List.mem_append_left _ (List.mem_append_right _ (List.mem_map_of_mem hsign))
  have hle := le_longest hreaders hown
  apply atStart_of_longest
  rcases longest_mem ((Reading.sign kind).2.toList ++ rest) with ⟨reader, hreader, hreading⟩ | ⟨hnone, -⟩
  · generalize longest ((Reading.sign kind).2.toList ++ rest) = reading at hreading hle ⊢
    generalize (Reading.sign kind).2.toList = text at *
    cases text with
    | nil => simp at hopens
    | cons c cs =>
        obtain ⟨other, hother, rfl⟩ := spelled_of_opensSign hreader hreading (by simpa using hopens)
          fun hc d hd => by
            obtain ⟨-, rfl⟩ := List.cons.inj (hdot (by rw [hc]; rfl))
            exact (hstops d hd).1
        obtain ⟨n, hn, rfl⟩ := ofForm_eq_some.1 hreading
        obtain ⟨rfl, more, hmore⟩ := Form.literal_eq_some.1 hn
        -- a longer sign would take the character behind this one
        obtain ⟨longer, hlonger⟩ := List.prefix_of_prefix_length_le ⟨rest, rfl⟩ ⟨more, hmore.symm⟩ hle
        cases longer with
        | nil =>
            rw [List.append_nil] at hlonger
            rw [← hlonger, hsame other hother hlonger.symm]
        | cons d longer =>
            rw [← hlonger, List.append_assoc] at hmore
            obtain rfl := List.append_cancel_left hmore
            have hnone := (hstops d rfl).2 other hother
            exact absurd ⟨longer, by rw [← hlonger]; simp⟩ hnone
  · rw [hnone _ hreaders] at hown
    cases hown

theorem isDigit_of_isWordStart (hc : isWordStart c = true) : c.isDigit = false ∧ c ≠ '.' := by
  refine ⟨Bool.eq_false_iff.2 fun hdigit => ?_, ?_⟩
  · have hle : c.toNat ≤ 57 :=
      UInt32.le_iff_toNat_le.1 (of_decide_eq_true (Bool.and_eq_true_iff.1 hdigit).2)
    rw [isWordStart, Text.isLetter, if_pos (Nat.lt_of_le_of_lt hle (by decide))] at hc
    have habove : 57 < c.toNat := by
      rcases Bool.or_eq_true_iff.1 hc with hunderscore | halpha
      · obtain rfl : c = '_' := of_decide_eq_true hunderscore
        decide
      · rcases (Bool.or_eq_true_iff.1 halpha : c.isUpper = true ∨ c.isLower = true) with
          hupper | hlower
        · have hge : 'A'.val ≤ c.val := (of_decide_eq_true hupper).1
          exact Nat.lt_of_lt_of_le (by decide) (UInt32.le_iff_toNat_le.1 hge)
        · have hge : 'a'.val ≤ c.val := of_decide_eq_true (Bool.and_eq_true_iff.1 hlower).1
          exact Nat.lt_of_lt_of_le (by decide) (UInt32.le_iff_toNat_le.1 hge)
    omega
  · rintro rfl
    exact absurd hc (by decide)

theorem word_facts : (∀ kind ∈ hardKeywords, (kind.spelling?.getD "").toList.all isWordPart = true) ∧
    ∀ kind ∈ signs, (kind.spelling?.getD "").toList.head?.any (!isWordStart ·) = true := by
  decide

theorem isPlainStart_of_isWordStart (hc : isWordStart c = true) :
    c ∉ " \t\r\x0c\n/`'\"".toList := by
  have hother : " \t\r\x0c\n/`'\"".toList.all (fun c => !isWordStart c) = true := by decide
  intro hmem
  have hfalse := List.all_eq_true.1 hother c hmem
  rw [hc] at hfalse
  cases hfalse

theorem plainWord_append (hc : isWordStart c = true) (hcs : cs.all isWordPart = true)
    (hends : ∀ d ∈ rest.head?, opensWordPart d = false) :
    plainWord (c :: cs ++ rest) = some (.token .identifier, cs.length + 1) := by
  have htake : (cs ++ rest).takeWhile isWordPart = cs := by
    rw [List.takeWhile_append_of_pos (List.all_eq_true.1 hcs)]
    cases rest with
    | nil => simp
    | cons d rest =>
        have hd := hends d rfl
        rw [opensWordPart, Bool.or_eq_false_iff] at hd
        rw [List.takeWhile_cons_of_neg (by simp [hd.1]), List.append_nil]
  simp [plainWord, ofForm, Form.chain, Form.one, Form.many, hc, htake, Nat.add_comm]

/-- Over a word that does not go on, nothing is read but the word, and another kind of it only if
it is a keyword. -/
theorem reading_of_word (hc : isWordStart c = true) (hcs : cs.all isWordPart = true)
    (hends : ∀ d ∈ rest.head?, opensWordPart d = false) (hreader : reader ∈ readers)
    {reading : PieceKind × Nat} (hreading : reader (c :: cs ++ rest) = some reading) :
    reading.2 ≤ cs.length + 1 ∧ (reading.2 = cs.length + 1 →
      reading.1 = .token .identifier ∨ TokenKind.keyword? (.ofList (c :: cs)) ≠ none) := by
  obtain ⟨-, c', rest', hstart, hstarts⟩ := starts_of_mem hreader hreading
  obtain ⟨rfl, -⟩ := List.cons.inj hstart
  -- keywords and plain words remain, as signs and numbers start with other characters
  rcases mem_plainReaders (plain_of_starts hstarts (isPlainStart_of_isWordStart hc)) with
    ⟨kind, hkind, rfl⟩ | ⟨kind, hkind, rfl⟩ | rfl | ⟨kind, form, hform, rfl⟩
  · obtain ⟨n, hn, rfl⟩ := ofForm_eq_some.1 (Option.filter_eq_some_iff.1 hreading).1
    obtain ⟨rfl, more, hmore⟩ := Form.literal_eq_some.1 hn
    have hparts := List.all_eq_true.1 (word_facts.1 kind hkind)
    have hspelling := (TokenKind.keyword?_spelling kind hkind).1
    rcases List.append_eq_append_iff.1 hmore with ⟨longer, hlonger, hrest⟩ | ⟨shorter, hshorter, -⟩
    · -- a longer keyword would take what stands behind the word
      cases longer with
      | nil =>
          rw [List.append_nil] at hlonger
          refine ⟨by simp [hlonger], fun _ => .inr ?_⟩
          rw [← hlonger, String.ofList_toList, hspelling]
          exact Option.some_ne_none kind
      | cons d longer =>
          have hd := hends d (by rw [hrest]; rfl)
          rw [opensWordPart, hparts d (by rw [hlonger]; simp), Bool.true_or] at hd
          cases hd
    · cases shorter with
      | nil =>
          rw [List.append_nil] at hshorter
          refine ⟨by simp [← hshorter], fun _ => .inr ?_⟩
          rw [hshorter, String.ofList_toList, hspelling]
          exact Option.some_ne_none kind
      | cons d shorter =>
          have hlength := congrArg List.length hshorter
          simp only [List.length_cons, List.length_append] at hlength
          exact ⟨by dsimp only; omega, fun h => by dsimp only at h; omega⟩
  · obtain ⟨n, hn, -⟩ := ofForm_eq_some.1 hreading
    obtain ⟨-, more, hmore⟩ := Form.literal_eq_some.1 hn
    have hfirst := word_facts.2 kind hkind
    cases hspelling : (kind.spelling?.getD "").toList with
    | nil => simp [hspelling] at hfirst
    | cons d ds =>
        rw [hspelling] at hmore hfirst
        obtain ⟨rfl, -⟩ := List.cons.inj hmore
        simp [hc] at hfirst
  · rw [plainWord_append hc hcs hends] at hreading
    obtain rfl := Option.some.inj hreading
    exact ⟨Nat.le_refl _, fun _ => .inl rfl⟩
  · obtain ⟨n, hn, -⟩ := ofForm_eq_some.1 hreading
    obtain ⟨-, d, ds, hds, hd⟩ := Form.Opens.of_mem_numbers hform _ n hn
    obtain ⟨rfl, -⟩ := List.cons.inj hds
    obtain ⟨hdigit, hdot⟩ := isDigit_of_isWordStart hc
    simp [hdigit, hdot] at hd

theorem longest_word (hc : isWordStart c = true) (hcs : cs.all isWordPart = true)
    (hends : ∀ d ∈ rest.head?, opensWordPart d = false) :
    (longest (c :: cs ++ rest)).2 = cs.length + 1 ∧
      ((longest (c :: cs ++ rest)).1 = .token .identifier ∨
        TokenKind.keyword? (.ofList (c :: cs)) ≠ none) := by
  have hown := plainWord_append hc hcs hends
  have hreaders : plainWord ∈ readers := by simp [readers, plainWord]
  have hle := le_longest hreaders hown
  rcases longest_mem (c :: cs ++ rest) with ⟨reader, hreader, hreading⟩ | ⟨hnone, -⟩
  · obtain ⟨hge, hkind⟩ := reading_of_word hc hcs hends hreader hreading
    have heq := Nat.le_antisymm hge hle
    exact ⟨heq, hkind heq⟩
  · rw [hnone _ hreaders] at hown
    cases hown

theorem atStart_name {text : String} (h : Reading.IsName text)
    (hends : Reading.Ends (.identifier, text) rest) :
    atStart (text.toList ++ rest) = ⟨.token .identifier, text.toList⟩ := by
  obtain ⟨c, cs, htext, hc, hcs⟩ := h.start
  obtain ⟨hlength, hkind⟩ := longest_word hc hcs fun d hd => by
    simpa [Reading.stopsAt, Reading.isWord] using hends d hd
  apply atStart_of_longest
  rw [htext]
  refine Prod.ext (hkind.resolve_right fun hfalse => hfalse ?_) hlength
  rw [← htext, String.ofList_toList]
  exact h.notHard

theorem atStart_in (hends : (Reading.sign .inKeyword).Ends rest) :
    atStart (['i', 'n'] ++ rest) = ⟨.token .inKeyword, ['i', 'n']⟩ := by
  have hopens : ∀ d ∈ rest.head?, opensWordPart d = false := by
    intro d hd
    have hword : (Reading.sign .inKeyword).isWord = true := rfl
    simpa [Reading.stopsAt, hword] using hends d hd
  have hlength : (longest (['i', 'n'] ++ rest)).2 = 2 :=
    (longest_word (c := 'i') (show ['n'].all isWordPart = true by decide) (by decide) hopens).1
  apply atStart_of_longest
  have halone : longest (['i', 'n'] ++ rest) = longest ['i', 'n'] := by
    apply longest_congr
    intro reader hreader
    exact reader_append (by decide) (.inr hopens) (Nat.le_of_eq hlength) hreader
  rw [halone]
  decide

theorem atStart_legible {reading : Reading} (h : reading.Legible) (hends : reading.Ends rest) :
    atStart (reading.2.toList ++ rest) = ⟨.token reading.1, reading.2.toList⟩ := by
  cases h with
  | name hname => exact atStart_name hname hends
  | sign hkind => exact atStart_sign hkind hends
  | inKeyword => exact atStart_in hends

end Piece

namespace Reading

variable {a b : Reading}

theorem sign_ends : ∀ kind ∈ signs, (sign kind).stopsAt ' ' = true ∧
    (sign kind).2.toList.head?.any (!Piece.opensWordPart ·) = true ∧
    ∀ other ∈ signs, (sign kind).clash (sign other) = true ∨
      (sign other).2.toList.head?.any (sign kind).stopsAt = true := by
  decide

theorem notWord_of_signs : ∀ kind ∈ TokenKind.signs,
    (kind.spelling?.getD "").toList.all (!Piece.isWordStart ·) = true := by
  decide

theorem Legible.word_or_sign (h : a.Legible) :
    (a.isWord = true ∧ a.2.toList.head?.any Piece.isWordStart = true) ∨
      a.isWord = false ∧ ∃ kind ∈ signs, a = Reading.sign kind := by
  cases h with
  | name hname =>
      obtain ⟨c, cs, htext, hc, -⟩ := hname.start
      exact .inl ⟨rfl, by simp [htext, hc]⟩
  | sign hkind => exact .inr ⟨(Piece.sign_facts _ hkind).2.1, _, hkind, rfl⟩
  | inKeyword => exact .inl ⟨rfl, by decide⟩

theorem Legible.exists_cons (h : a.Legible) :
    ∃ c cs, a.2.toList = c :: cs ∧ c ∉ " \t\r\x0c\n/`'\"".toList := by
  rcases h.word_or_sign with ⟨-, hhead⟩ | ⟨-, kind, hkind, rfl⟩
  · obtain ⟨c, hc, hstart⟩ := (Option.any_eq_true _ _).1 hhead
    obtain ⟨cs, htext⟩ := List.head?_eq_some_iff.1 hc
    exact ⟨c, cs, htext, Piece.isPlainStart_of_isWordStart hstart⟩
  · have hhead := (Piece.sign_facts kind hkind).2.2.1
    obtain ⟨c, hc, hopens⟩ := (Option.any_eq_true _ _).1 hhead
    obtain ⟨cs, htext⟩ := List.head?_eq_some_iff.1 hc
    simp only [Piece.opensSign, Bool.and_eq_true, Bool.not_eq_true'] at hopens
    refine ⟨c, cs, htext, fun hmem => ?_⟩
    rw [List.contains_iff_mem.2 hmem] at hopens
    cases hopens.1.1.1

theorem Legible.text_ne_nil (h : a.Legible) : a.2.toList ≠ [] := by
  obtain ⟨c, cs, htext, -⟩ := h.exists_cons
  rw [htext]
  exact List.cons_ne_nil c cs

theorem ends_nil : a.Ends [] := fun _ hd => nomatch hd

theorem Legible.ends_blank (h : a.Legible) (rest : List Char) : a.Ends (' ' :: rest) := by
  rintro d ⟨⟩
  rcases h.word_or_sign with ⟨hword, -⟩ | ⟨-, kind, hkind, rfl⟩
  · rw [stopsAt, if_pos hword]
    decide
  · exact (sign_ends kind hkind).1

theorem stopsAt_of_isWordStart {kind : TokenKind} (hkind : kind ∈ signs) {d : Char}
    (hd : Piece.isWordStart d = true) : (sign kind).stopsAt d = true := by
  rw [stopsAt, (Piece.sign_facts kind hkind).2.1]
  simp only [Bool.false_eq_true, if_false, Bool.and_eq_true, List.all_eq_true,
    Bool.not_eq_true', ← Bool.not_eq_true, List.isPrefixOf_iff_prefix]
  refine ⟨Bool.not_eq_true _ ▸ (Piece.isDigit_of_isWordStart hd).1, fun other hother hlonger => ?_⟩
  have hmem : d ∈ (other.spelling?.getD "").toList := hlonger.subset (by simp)
  have hfalse := List.all_eq_true.1 (notWord_of_signs other hother) d hmem
  rw [hd] at hfalse
  cases hfalse

/-- Where two tokens do not clash, the second one ends the first one. -/
theorem Legible.ends_append (ha : a.Legible) (hb : b.Legible) (h : a.clash b = false)
    (rest : List Char) : a.Ends (b.2.toList ++ rest) := by
  intro d hd
  rw [List.head?_append_of_ne_nil _ hb.text_ne_nil] at hd
  rw [clash, Bool.or_eq_false_iff, Bool.and_eq_false_iff] at h
  rcases ha.word_or_sign with ⟨hword, -⟩ | ⟨-, kind, hkind, rfl⟩
  · rcases hb.word_or_sign with ⟨hword', -⟩ | ⟨-, other, hother, rfl⟩
    · simp [hword, hword'] at h
    · have hopens := (sign_ends other hother).2.1
      rw [hd] at hopens
      rwa [stopsAt, if_pos hword]
  · rcases hb.word_or_sign with ⟨-, hstart⟩ | ⟨hword', other, hother, rfl⟩
    · rw [hd] at hstart
      exact stopsAt_of_isWordStart hkind hstart
    · rcases (sign_ends kind hkind).2.2 other hother with hclash | hstops
      · rw [clash, Bool.or_eq_true, hword', Bool.and_false, h.2] at hclash
        simp at hclash
      · rwa [hd] at hstops

end Reading
end AnnotationScan
