import AnnotationScan.Proofs.Token.Locality
import AnnotationScan.Proofs.Token.Spellings

/-!
# The text of a token on its own

A token is read from its text alone as it is read where other text goes on behind it.  Only a name
may be read as something else: if it is spelled like a hard keyword, it is a name because of the
character behind it, and on its own it is that keyword.
-/

namespace AnnotationScan

namespace TokenKind

def keyword? (text : String) : Option TokenKind :=
  hardKeywords.find? fun kind => kind.spelling? = some text

/-- What a token of some kind becomes where nothing stands behind its text. -/
def alone (kind : TokenKind) (text : String) : TokenKind :=
  if kind = .identifier then (keyword? text).getD .identifier else kind

theorem alone_of_ne {kind : TokenKind} (h : kind ≠ .identifier) (text : String) :
    kind.alone text = kind :=
  if_neg h

theorem keyword?_spelling : ∀ kind ∈ hardKeywords,
    keyword? (kind.spelling?.getD "") = some kind ∧
      (kind.spelling?.getD "").toList.head?.any (fun c => c.isDigit || c = '.' || c = '`') = false := by
  decide

theorem keyword?_eq_some {text : String} {kind : TokenKind} (h : keyword? text = some kind) :
    kind ∈ hardKeywords ∧ text = kind.spelling?.getD "" := by
  rw [keyword?] at h
  have hspelling := List.find?_some h
  rw [decide_eq_true_eq] at hspelling
  refine ⟨List.mem_of_find?_eq_some h, ?_⟩
  rw [hspelling, Option.getD_some]

theorem keyword?_eq_none {c : Char} {cs : List Char}
    (hc : (c.isDigit || c = '.' || c = '`') = true) : keyword? (.ofList (c :: cs)) = none := by
  refine Option.eq_none_iff_forall_ne_some.2 fun kind hkind => ?_
  obtain ⟨hmem, htext⟩ := keyword?_eq_some hkind
  have hstart := (keyword?_spelling kind hmem).2
  rw [← htext, String.toList_ofList, List.head?_cons, Option.any_some, hc] at hstart
  cases hstart

end TokenKind

namespace Piece

variable {reader : Reader} {kind : TokenKind} {cs more : List Char}

theorem Opens.eq_none {holds : Char → Bool} {c : Char} (h : Opens holds reader)
    (hc : holds c = false) (cs : List Char) : reader (c :: cs) = none := by
  refine Option.eq_none_iff_forall_ne_some.2 fun reading hreading => ?_
  obtain ⟨-, c', rest, hcs, hc'⟩ := h _ _ hreading
  obtain rfl := (List.cons.inj hcs).1
  rw [hc] at hc'
  cases hc'

/-! ## Readers that agree -/

theorem ofForm_append {kind : PieceKind} {form : Form} (h : form.Local)
    (hreader : ofForm kind form ∈ readers) (hle : (longest (cs ++ more)).2 ≤ cs.length) :
    ofForm kind form (cs ++ more) = ofForm kind form cs := by
  rcases h.same cs more with hsame | ⟨n, hn, hlt⟩
  · rw [ofForm, ofForm, hsame]
  · have hreach := le_longest hreader (ofForm_eq_some.2 ⟨n, hn, rfl⟩)
    exact absurd hle (Nat.not_le.2 (Nat.lt_of_lt_of_le hlt hreach))

theorem local_quotedWord : Form.Local quotedWord := by
  have hclosing := (Form.Local.one (· = '`')).cons_total .nil .nil
  have hmore := (Form.Local.many isQuotedPart).cons (.many _) hclosing rfl
  exact (Form.Local.one _).cons (.one _) ((Form.Local.one _).cons (.one _) hmore rfl) rfl

/-- What is spelled like a keyword and goes on is told from the keyword by the same character. -/
theorem keyword_append (hreader : keyword kind ∈ readers)
    (hother : cs = (kind.spelling?.getD "").toList → ∀ d ∈ more.head?, opensWordPart d = false)
    (hle : (longest (cs ++ more)).2 ≤ cs.length) : keyword kind (cs ++ more) = keyword kind cs := by
  rcases (Form.Local.literal (kind.spelling?.getD "").toList).same cs more with
    hsame | ⟨n, hn, hlt⟩
  · have hspelled : spelled kind (cs ++ more) = spelled kind cs := by
      rw [spelled, ofForm, ofForm, hsame]
    rw [keyword, keyword, hspelled]
    cases hreading : spelled kind cs with
    | none => rfl
    | some reading =>
        obtain ⟨n, hn, rfl⟩ := ofForm_eq_some.1 hreading
        obtain ⟨rfl, rest, hrest⟩ := Form.literal_eq_some.1 hn
        cases rest with
        | nil =>
            rw [List.append_nil] at hrest
            have hnext : (cs ++ more)[cs.length]? = more.head? := by
              rw [List.getElem?_append_right (Nat.le_refl _), Nat.sub_self, List.head?_eq_getElem?]
            have hends : (more.head?).any opensWordPart = false := by
              rw [Option.any_eq_false]
              exact fun d hd => by simp [hother hrest d hd]
            simp [Option.filter, ← hrest, hnext, hends]
        | cons d rest =>
            have hinside : (kind.spelling?.getD "").toList.length < cs.length := by
              rw [hrest, List.length_append]
              exact Nat.lt_add_of_pos_right (Nat.succ_pos rest.length)
            simp only [Option.filter, List.getElem?_append_left hinside]
  · have hshort : spelled kind cs = none := by
      refine Option.eq_none_iff_forall_ne_some.2 fun reading hreading => ?_
      obtain ⟨m, hm, -⟩ := ofForm_eq_some.1 hreading
      have hm' := (Form.Local.literal _).le cs m hm
      rw [(Form.literal_eq_some.1 hn).1] at hlt
      rw [(Form.literal_eq_some.1 hm).1] at hm'
      exact absurd hm' (Nat.not_le.2 hlt)
    have hlong : keyword kind (cs ++ more) = none := by
      refine Option.eq_none_iff_forall_ne_some.2 fun reading hreading => ?_
      have hreach := le_longest hreader hreading
      have hspelled := (Option.filter_eq_some_iff.1 hreading).1
      obtain rfl := Option.some.inj (hspelled.symm.trans (ofForm_eq_some.2 ⟨n, hn, rfl⟩))
      exact absurd hle (Nat.not_le.2 (Nat.lt_of_lt_of_le hlt hreach))
    rw [hlong, keyword, hshort]
    rfl

/-- Where no class takes more than the beginning of a text, all classes that start like it take the
same of the beginning, unless that is a keyword and a word goes on. -/
theorem reader_append {c : Char} (hc : c ∉ ['/', '"', '\''])
    (hother : TokenKind.keyword? (.ofList (c :: cs)) = none ∨
      ∀ d ∈ more.head?, opensWordPart d = false)
    (hle : (longest (c :: cs ++ more)).2 ≤ (c :: cs).length) (h : reader ∈ readers) :
    reader (c :: cs ++ more) = reader (c :: cs) := by
  simp only [List.mem_cons, List.not_mem_nil, or_false, not_or] at hc
  obtain ⟨hslash, hdouble, hquote⟩ := hc
  have hnone : ∀ {d : Char}, c ≠ d → Opens (· = d) reader →
      reader (c :: cs ++ more) = reader (c :: cs) := by
    intro d hd hopens
    have hfalse : decide (c = d) = false := decide_eq_false hd
    rw [List.cons_append, hopens.eq_none hfalse, hopens.eq_none hfalse]
  rcases mem_readers h with hplain | rfl | rfl | rfl | rfl | rfl | rfl | rfl | rfl | rfl
  · rcases mem_plainReaders hplain with ⟨kind, hkind, rfl⟩ | ⟨kind, hkind, rfl⟩ | rfl |
      ⟨kind, form, hform, rfl⟩
    · refine keyword_append h (fun htext => hother.resolve_left ?_) hle
      rw [htext, String.ofList_toList, (TokenKind.keyword?_spelling kind hkind).1]
      exact Option.some_ne_none kind
    · exact ofForm_append (.literal _) h hle
    · exact ofForm_append (Form.Local.word _ _).1 h hle
    · exact ofForm_append (.of_mem_numbers hform) h hle
  · exact ofForm_append (Form.Local.word _ _).1 h hle
  · exact ofForm_append (.one _) h hle
  · exact hnone hslash (.ofForm (.chain (.literal rfl)))
  · exact hnone hslash .blockComment
  · exact ofForm_append local_quotedWord h hle
  · exact hnone hquote (.ofForm (.chain (.one _)))
  · exact hnone hdouble .stringLiteral
  · exact hnone hdouble .rawStringLiteral
  · exact ofForm_append (Form.Local.word _ _).1 h hle

/-! ## Tokens on their own -/

theorem atStart_eq {kind : PieceKind} (h : longest cs = (kind, cs.length)) :
    atStart cs = ⟨kind, cs⟩ := by
  rw [atStart, h, List.take_length]

theorem ofText_of_atStart {kind : PieceKind} (hne : cs ≠ []) (h : atStart cs = ⟨kind, cs⟩) :
    (ofText cs).toList = [⟨kind, cs⟩] := by
  obtain ⟨c, cs, rfl⟩ := List.exists_cons_of_ne_nil hne
  rw [ofText_cons, h, List.drop_length]
  rfl

theorem atStart_spelling : ∀ kind ∈ TokenKind.hardKeywords ++ TokenKind.signs,
    atStart (kind.spelling?.getD "").toList = ⟨.token kind, (kind.spelling?.getD "").toList⟩ := by
  decide +kernel

theorem atStart_keyword (h : TokenKind.keyword? (.ofList cs) = some kind) :
    atStart cs = ⟨.token kind, cs⟩ := by
  obtain ⟨hkind, htext⟩ := TokenKind.keyword?_eq_some h
  have hspelling := atStart_spelling kind (List.mem_append_left _ hkind)
  rwa [← htext, String.toList_ofList] at hspelling

theorem atStart_of_spelled {kind' : TokenKind}
    (hkind : kind' ∈ TokenKind.hardKeywords ++ TokenKind.signs)
    (h : spelled kind' (cs ++ more) = some (.token kind, cs.length)) :
    atStart cs = ⟨.token kind, cs⟩ := by
  obtain ⟨n, hn, hreading⟩ := ofForm_eq_some.1 h
  obtain ⟨hkinds, hlength⟩ := Prod.mk.inj hreading
  obtain rfl := PieceKind.token.inj hkinds
  obtain ⟨hspelling, rest, hrest⟩ := Form.literal_eq_some.1 hn
  obtain ⟨rfl, -⟩ := List.append_inj hrest (hlength.symm.trans hspelling)
  exact atStart_spelling kind' hkind

theorem atStart_of_start {kind : PieceKind} {c : Char} (hc : c ∉ ['/', '"', '\''])
    (hother : TokenKind.keyword? (.ofList (c :: cs)) = none)
    (hlongest : longest (c :: cs ++ more) = (kind, (c :: cs).length)) :
    atStart (c :: cs) = ⟨kind, c :: cs⟩ := by
  apply atStart_eq
  rw [← hlongest]
  apply longest_congr
  intro reader hreader
  refine (reader_append hc (.inl hother) ?_ hreader).symm
  rw [hlongest]

theorem atStart_of_character {kind : PieceKind}
    (h : characterLiteral (cs ++ more) = some (kind, cs.length)) : atStart cs = ⟨kind, cs⟩ := by
  obtain ⟨n, hn, hreading⟩ := ofForm_eq_some.1 h
  obtain ⟨hkind, rfl⟩ := Prod.mk.inj hreading
  have hown : characterLiteral cs = some (kind, cs.length) :=
    ofForm_eq_some.2 ⟨_, Form.Kept.character cs more _ hn (Nat.le_refl _), by rw [hkind]⟩
  have hopens : Opens (· = '\'') characterLiteral := .ofForm (.chain (.one _))
  obtain ⟨-, c, rest, rfl, hc⟩ := hopens _ _ hown
  obtain rfl : c = '\'' := of_decide_eq_true hc
  apply atStart_eq
  refine longest_eq (by simp [readers, characterLiteral]) hown fun reader hreader reading hread => ?_
  obtain ⟨-, c', rest', hcs, hstarts⟩ := starts_of_mem hreader hread
  obtain rfl := (List.cons.inj hcs).1
  exact hstarts.of_quote

theorem exists_of_append {front rest : List Char} (h : cs ++ more = front ++ rest)
    (hle : front.length ≤ cs.length) : ∃ body, cs = front ++ body ∧ rest = body ++ more := by
  obtain ⟨body, rfl⟩ := List.prefix_of_prefix_length_le (show front <+: cs ++ more from ⟨rest, h.symm⟩)
    (List.prefix_append cs more) hle
  rw [List.append_assoc] at h
  exact ⟨body, rfl, (List.append_cancel_left h).symm⟩

theorem stringLiteral_kept (h : stringLiteral (cs ++ more) = some (.token kind, cs.length)) :
    kind = .stringLiteral ∧ ∃ body, cs = '"' :: body ∧ Form.stringBody body = .ok body.length := by
  unfold stringLiteral at h
  split at h
  case h_2 => cases h
  case h_1 rest hrest =>
    split at h
    case h_2 => cases h
    case h_1 length hlength =>
      obtain ⟨hkind, hsize⟩ := Prod.mk.inj (Option.some.inj h)
      obtain ⟨body, rfl, rfl⟩ := exists_of_append (show cs ++ more = ['"'] ++ rest from hrest)
        (by rw [← hsize]; exact Nat.le_add_right _ _)
      obtain rfl : length = body.length := by
        rw [List.length_append] at hsize
        exact Nat.add_left_cancel hsize
      exact ⟨(PieceKind.token.inj hkind).symm, body, rfl,
        Form.stringEnd_kept hlength (Nat.le_add_left _ _)⟩

theorem rawStringLiteral_kept
    (h : rawStringLiteral (cs ++ more) = some (.token kind, cs.length)) :
    kind = .rawStringLiteral ∧ ∃ body, cs = '"' :: '"' :: '"' :: body ∧
      Form.rawStringBody body = some body.length := by
  unfold rawStringLiteral at h
  split at h
  case h_2 => cases h
  case h_1 rest hrest =>
    split at h
    case h_2 => cases h
    case h_1 length hlength =>
      obtain ⟨hkind, hsize⟩ := Prod.mk.inj (Option.some.inj h)
      obtain ⟨body, rfl, rfl⟩ := exists_of_append (show cs ++ more = ['"', '"', '"'] ++ rest from hrest)
        (by rw [← hsize]; exact Nat.le_add_right _ _)
      obtain rfl : length = body.length := by
        rw [List.length_append] at hsize
        exact Nat.add_left_cancel hsize
      exact ⟨(PieceKind.token.inj hkind).symm, body, rfl,
        Form.rawStringEnd_kept hlength (Nat.le_add_left _ _)⟩

theorem atStart_string {body : List Char} (h : Form.stringBody body = .ok body.length) :
    atStart ('"' :: body) = ⟨.token .stringLiteral, '"' :: body⟩ := by
  have hown : stringLiteral ('"' :: body) =
      some (.token .stringLiteral, ('"' :: body).length) := by
    simp only [stringLiteral, h, List.length_cons, Nat.add_comm]
  apply atStart_eq
  refine longest_eq (by simp [readers]) hown fun reader hreader reading hreading => ?_
  obtain ⟨-, c, rest, hcs, hstarts⟩ := starts_of_mem hreader hreading
  obtain rfl := (List.cons.inj hcs).1
  rcases hstarts.of_doubleQuote with rfl | rfl
  · rfl
  · -- three quotes are an empty string and a quote that is not taken
    unfold rawStringLiteral at hreading
    split at hreading
    case h_2 => cases hreading
    case h_1 rest' hrest' =>
      obtain rfl := (List.cons.inj hrest').2
      have hempty : Form.stringBody ('"' :: '"' :: rest') = .ok 1 := rfl
      have hlength := Except.ok.inj (hempty.symm.trans h)
      simp at hlength

theorem atStart_rawString {body : List Char} (h : Form.rawStringBody body = some body.length) :
    atStart ('"' :: '"' :: '"' :: body) =
      ⟨.token .rawStringLiteral, '"' :: '"' :: '"' :: body⟩ := by
  have hown : rawStringLiteral ('"' :: '"' :: '"' :: body) =
      some (.token .rawStringLiteral, 3 + body.length) := by
    simp only [rawStringLiteral, h]
  have hle := le_longest (show rawStringLiteral ∈ readers by simp [readers]) hown
  apply atStart_eq
  rcases longest_mem ('"' :: '"' :: '"' :: body) with ⟨reader, hreader, hreading⟩ | ⟨hnone, -⟩
  · obtain ⟨-, c, rest, hcs, hstarts⟩ := starts_of_mem hreader hreading
    obtain rfl := (List.cons.inj hcs).1
    rcases hstarts.of_doubleQuote with rfl | rfl
    · have hempty : stringLiteral ('"' :: '"' :: '"' :: body) =
          some (.token .stringLiteral, 2) := rfl
      rw [← Option.some.inj (hempty.symm.trans hreading)] at hle
      dsimp only at hle
      omega
    · rw [← Option.some.inj (hown.symm.trans hreading)]
      exact congrArg _ (Nat.add_comm 3 _)
  · rw [hnone rawStringLiteral (by simp [readers])] at hown
    cases hown

/-- Where a class reads a token over the beginning of a text, the token is read on its own, unless it
is a name that becomes a keyword. -/
theorem atStart_of_reading (h : reader ∈ readers)
    (hreading : reader (cs ++ more) = some (.token kind, cs.length))
    (hlongest : longest (cs ++ more) = (.token kind, cs.length))
    (hother : kind = .identifier → TokenKind.keyword? (.ofList cs) = none) :
    atStart cs = ⟨.token kind, cs⟩ := by
  have hstart : ∀ {holds : Char → Bool}, Opens holds reader →
      ['/', '"', '\''].all (!holds ·) = true →
      (∀ c, holds c = true → (c.isDigit || c = '.' || c = '`') = true ∨
        TokenKind.keyword? (.ofList cs) = none) → atStart cs = ⟨.token kind, cs⟩ := by
    intro holds hopens hnone hholds
    obtain ⟨hpos, c, rest, hcs, hc⟩ := hopens _ _ hreading
    obtain ⟨d, ds, rfl⟩ := List.exists_cons_of_length_pos hpos
    obtain rfl := (List.cons.inj hcs).1
    refine atStart_of_start (fun hmem => ?_) ((hholds _ hc).elim TokenKind.keyword?_eq_none id)
      hlongest
    have hfalse := List.all_eq_true.1 hnone _ hmem
    rw [hc] at hfalse
    cases hfalse
  rcases mem_readers_of_token h hreading with hplain | rfl | rfl | rfl | rfl
  · rcases mem_plainReaders hplain with ⟨kind', hkind, rfl⟩ | ⟨kind', hkind, rfl⟩ | rfl |
      ⟨kind', form, hform, rfl⟩
    · have hspelled := (Option.filter_eq_some_iff.1 hreading).1
      exact atStart_of_spelled (List.mem_append_left _ hkind) hspelled
    · exact atStart_of_spelled (List.mem_append_right _ hkind) hreading
    · have hidentifier := PieceKind.token.inj (kind_of_ofForm hreading)
      exact hstart (.ofForm (.chain (.one _))) (by decide) fun _ _ => .inr (hother hidentifier.symm)
    · refine hstart (.ofForm (.of_mem_numbers hform)) (by decide) fun c hc => .inl ?_
      rw [hc, Bool.true_or]
  · refine hstart (.ofForm (.chain (.one _))) (by decide) fun c hc => .inl ?_
    rw [hc, Bool.or_true]
  · exact atStart_of_character hreading
  · obtain ⟨rfl, body, rfl, hbody⟩ := stringLiteral_kept hreading
    exact atStart_string hbody
  · obtain ⟨rfl, body, rfl, hbody⟩ := rawStringLiteral_kept hreading
    exact atStart_rawString hbody

theorem atStart_of_append (h : atStart (cs ++ more) = ⟨.token kind, cs⟩)
    (hother : kind = .identifier → TokenKind.keyword? (.ofList cs) = none) :
    atStart cs = ⟨.token kind, cs⟩ := by
  by_cases hmore : more = []
  · rwa [hmore, List.append_nil] at h
  obtain ⟨hkind, htext⟩ := Piece.mk.inj h
  have hlength : (longest (cs ++ more)).2 = cs.length := by
    have hpos := List.length_pos_iff.2 hmore
    have hsize := congrArg List.length htext
    rw [List.length_take, List.length_append] at hsize
    omega
  have hlongest : longest (cs ++ more) = (.token kind, cs.length) := Prod.ext hkind hlength
  rcases longest_mem (cs ++ more) with ⟨reader, hreader, hreading⟩ | ⟨-, hfault⟩
  · rw [hlongest] at hreading
    exact atStart_of_reading hreader hreading hlongest hother
  · rw [hlongest] at hfault
    cases hfault

/-- The text of a token is read as that token where it ends, or as a keyword. -/
theorem atStart_alone (h : atStart (cs ++ more) = ⟨.token kind, cs⟩) :
    atStart cs = ⟨.token (kind.alone (.ofList cs)), cs⟩ := by
  rw [TokenKind.alone]
  by_cases hkind : kind = .identifier
  · rw [if_pos hkind]
    cases hkeyword : TokenKind.keyword? (.ofList cs) with
    | some keyword => exact atStart_keyword hkeyword
    | none =>
        subst hkind
        exact atStart_of_append h fun _ => hkeyword
  · rw [if_neg hkind]
    exact atStart_of_append h fun hfalse => absurd hfalse hkind

end Piece
end AnnotationScan
