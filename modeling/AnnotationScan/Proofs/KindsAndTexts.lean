import AnnotationScan.Proofs.Rereading
import AnnotationScan.Proofs.Token.Adjacent
import Mathlib.Data.List.Chain

/-!
# Kinds and texts of tokens

The kind of a token tells its text, as far as kinds have spellings; a name is no hard keyword unless
the keyword was given up because of the character behind it; and of two tokens that touch none are
left that form a third one.
-/

namespace AnnotationScan

namespace Piece

variable {cs rest : List Char} {kind : TokenKind}

theorem exists_word (h : TokenKind.keyword? (.ofList cs) = some kind) :
    ∃ c word, cs = c :: word ∧ isWordStart c = true ∧ word.all isWordPart = true := by
  obtain ⟨hkind, htext⟩ := TokenKind.keyword?_eq_some h
  have hstarts : ∀ kind ∈ TokenKind.hardKeywords,
      (kind.spelling?.getD "").toList.head?.any isWordStart = true := by decide
  have hstart := hstarts kind hkind
  have hparts := word_facts.1 kind hkind
  rw [← htext, String.toList_ofList] at hstart hparts
  cases cs with
  | nil => cases hstart
  | cons c word =>
      rw [List.all_cons, Bool.and_eq_true] at hparts
      exact ⟨c, word, rfl, hstart, hparts.2⟩

/-- A hard keyword is read as itself where no word can go on behind it. -/
theorem atStart_keyword_append (h : TokenKind.keyword? (.ofList cs) = some kind)
    (hends : ∀ d ∈ rest.head?, opensWordPart d = false) :
    atStart (cs ++ rest) = ⟨.token kind, cs⟩ := by
  obtain ⟨c, word, rfl, hc, hword⟩ := exists_word h
  have hlength := (longest_word hc hword hends).1
  have hstart : c ∉ ['/', '"', '\''] := by
    intro hmem
    have hnone : ['/', '"', '\''].any isWordStart = false := by decide
    exact List.any_eq_false.1 hnone c hmem hc
  have halone : longest (c :: word ++ rest) = longest (c :: word) := by
    apply longest_congr
    intro reader hreader
    exact reader_append hstart (.inr hends) (Nat.le_of_eq hlength) hreader
  have hkeyword := atStart_keyword h
  rw [atStart, ← halone] at hkeyword
  obtain ⟨hkind, htext⟩ := Piece.mk.inj hkeyword
  exact atStart_of_longest (Prod.ext hkind hlength)

/-- A name that is spelled like a hard keyword stands in front of a character that is no part of a
word, though its first byte may begin one. -/
theorem cutShort_of_identifier (h : atStart (cs ++ rest) = ⟨.token .identifier, cs⟩)
    (hkeyword : TokenKind.keyword? (.ofList cs) = some kind) :
    ∃ c after, rest = c :: after ∧ isWordPart c = false ∧ opensWordPart c = true := by
  obtain ⟨c, after, rfl, hopens⟩ : ∃ c after, rest = c :: after ∧ opensWordPart c = true := by
    by_contra hnone
    have hends : ∀ d ∈ rest.head?, opensWordPart d = false := by
      intro d hd
      cases rest with
      | nil => cases hd
      | cons c after =>
          obtain rfl := Option.some.inj hd
          exact Bool.eq_false_iff.2 fun hopens => hnone ⟨c, after, rfl, hopens⟩
    have hpiece := (atStart_keyword_append hkeyword hends).symm.trans h
    have hidentifier := PieceKind.token.inj (Piece.mk.inj hpiece).1
    have hhard := (TokenKind.keyword?_eq_some hkeyword).1
    rw [hidentifier] at hhard
    exact absurd hhard (by decide)
  refine ⟨c, after, rfl, Bool.eq_false_iff.2 fun hpart => ?_, hopens⟩
  -- the word would go on with the character
  obtain ⟨d, word, rfl, hd, hword⟩ := exists_word hkeyword
  obtain ⟨-, htext⟩ := Piece.mk.inj h
  have hlength := congrArg List.length htext
  have hlong : plainWord (d :: word ++ c :: after) = some (.token .identifier,
      1 + (word.length + ((c :: after).takeWhile isWordPart).length)) := by
    have htake : (word ++ c :: after).takeWhile isWordPart =
        word ++ (c :: after).takeWhile isWordPart :=
      List.takeWhile_append_of_pos (List.all_eq_true.1 hword)
    simp [plainWord, ofForm, Form.chain, Form.one, Form.many, hd, htake]
  have hle := le_longest (by simp [readers, plainWord]) hlong
  rw [List.takeWhile_cons_of_pos hpart] at hle
  simp only [List.length_take, List.length_append, List.length_cons] at hlength hle
  omega

end Piece

/-- The token lies directly in front of a character that is no part of a word, though its first byte
may begin one. -/
def Token.IsCutShort (token : Token) (source : List Char) (text : String) : Prop :=
  ∃ before c after, source = before ++ text.toList ++ c :: after ∧
    token.span = ⟨Text.byteLength before, Text.byteLength (before ++ text.toList)⟩ ∧
      Piece.isWordPart c = false ∧ Piece.opensWordPart c = true

def TokenKind.joining : List (TokenKind × TokenKind) :=
  [(.bang, .inKeyword), (.bang, .isKeyword), (.asKeyword, .question)]

theorem TokenKind.notMem_joining {a b : TokenKind} (h : a.joined? b = none) :
    (a, b) ∉ joining := by
  intro hmem
  simp only [joining, List.mem_cons, List.not_mem_nil, or_false, Prod.mk.injEq] at hmem
  rcases hmem with ⟨rfl, rfl⟩ | ⟨rfl, rfl⟩ | ⟨rfl, rfl⟩ <;> cases h

namespace Tokenized

/-! ## Tokens that touch -/

/-- Of tokens in a row none touches the one in front of it and forms a third one with it. -/
def Unjoined (tokens : List Token) : Prop :=
  tokens.IsChain fun a b => b.before = .empty → a.kind.joined? b.kind = none

namespace Unjoined

variable {tokens : Array Token}

theorem push (h : Unjoined tokens.toList) {token : Token}
    (hlast : token.before = .empty → ∀ last ∈ tokens.back?, last.kind.joined? token.kind = none) :
    Unjoined (tokens.push token).toList := by
  rw [Array.toList_push]
  refine List.isChain_append.2 ⟨h, List.isChain_singleton _, fun last hmem next hnext hbefore => ?_⟩
  obtain rfl := Option.some.inj hnext
  rw [Array.getLast?_toList] at hmem
  exact hlast hbefore last hmem

theorem addToken (h : Unjoined tokens.toList) (kind : TokenKind) (span : Span) (before : Trivia) :
    Unjoined (addToken tokens kind span before).toList := by
  by_cases hbefore : before = .empty
  · subst hbefore
    rcases Nat.eq_zero_or_pos tokens.size with hempty | hpos
    · obtain rfl := Array.eq_empty_of_size_eq_zero hempty
      exact h.push fun _ last hlast => by simp at hlast
    · obtain ⟨front, last, rfl⟩ := Array.exists_push_of_size_pos hpos
      rw [addToken_touching]
      cases hjoined : last.kind.joined? kind with
      | none =>
          refine h.push fun _ other hother => ?_
          rw [Array.back?_push] at hother
          obtain rfl := Option.some.inj hother
          exact hjoined
      | some whole =>
          -- what two tokens form together joins with nothing in front of it
          rw [Array.toList_push] at h
          have hfront : Unjoined front.toList := (List.isChain_append.1 h).1
          refine hfront.push fun _ other _ => ?_
          rcases TokenKind.joined?_cases hjoined with ⟨-, -, rfl⟩ | ⟨-, -, rfl⟩ | ⟨-, -, rfl⟩ <;>
            cases other.kind <;> rfl
  · rw [addToken_apart tokens kind span hbefore]
    exact h.push fun hempty => absurd hempty hbefore

theorem joined?_eq_none {a b : TokenKind} (hb : b = .malformed ∨ b = .endOfInput) :
    a.joined? b = none := by
  rcases hb with rfl | rfl <;> cases a <;> rfl

theorem add {progress : Progress} (h : Unjoined progress.tokens.toList) (piece : Piece) :
    Unjoined (progress.add piece).tokens.toList := by
  obtain ⟨tokens, faults, offset, pending⟩ := progress
  obtain ⟨kind, text⟩ := piece
  cases kind with
  | token kind => exact h.addToken kind _ _
  | fault kind => exact h.push fun _ last _ => joined?_eq_none (.inl rfl)
  | blanks | lineFeed | lineComment | blockComment => exact h

theorem read {progress : Progress} (h : Unjoined progress.tokens.toList) (pieces : List Piece) :
    Unjoined (progress.read pieces).tokens.toList := by
  induction pieces generalizing progress with
  | nil => exact h
  | cons piece pieces ih => exact ih (h.add piece)

end Unjoined

theorem unjoined_ofSource (source : String) : Unjoined (ofSource source).tokens.tokens.toList := by
  have hnil : Unjoined ({} : Progress).tokens.toList := List.isChain_nil
  rw [tokens_ofSource]
  exact (hnil.read _).push fun _ last _ => Unjoined.joined?_eq_none (.inr rfl)

theorem before_of_touching {source : String} {i : Nat} {a b : Token}
    (ha : (ofSource source).tokens.get? i = some a)
    (hb : (ofSource source).tokens.get? (i + 1) = some b) (htouch : a.span.stop = b.span.start) :
    b.before = .empty := by
  obtain ⟨front, gap, own, back, hamong, hstop, -⟩ := exists_among hb
  have hstart : b.span.start = Piece.bytes (front ++ gap) := by rw [hamong.span_eq]
  rw [TokenList.stopBefore, ha, Option.elim_some, htouch, hstart, Piece.bytes_append] at hstop
  have hgap : gap = [] := by
    cases gap with
    | nil => rfl
    | cons piece gap =>
        have hne := Piece.text_ne_nil source.toList piece (by simp [hamong.pieces_eq])
        have hpos := Text.byteLength_pos hne
        rw [Piece.bytes_cons, Piece.size] at hstop
        omega
  rw [hamong.before_eq, hgap]
  rfl

/-! ## Kinds and texts -/

/-- Kinds and texts of the tokens in a list agree. -/
structure Agree (list : TokenList) : Prop where
  spelled : ∀ i token spelling, list.get? i = some token → token.kind.spelling? = some spelling →
    list.text i = spelling ∧ token.kind.description = "`" ++ list.text i ++ "`"
  named : ∀ i token, list.get? i = some token → token.kind = .identifier →
    TokenKind.keyword? (list.text i) = none ∨ token.IsCutShort list.source.toList (list.text i)
  apart : ∀ i a b, list.get? i = some a → list.get? (i + 1) = some b →
    a.span.stop = b.span.start → (a.kind, b.kind) ∉ TokenKind.joining

theorem text_of_spelling {source : String} {i : Nat} {token : Token} {spelling : String}
    (htoken : (ofSource source).tokens.get? i = some token)
    (hspelling : token.kind.spelling? = some spelling) :
    (ofSource source).tokens.text i = spelling := by
  obtain ⟨front, gap, own, back, hamong, -, hmakes⟩ := exists_among htoken
  have hpieces := hamong.pieces_eq
  rw [← List.append_assoc] at hpieces
  rcases hmakes with hmakes | ⟨hend, -⟩
  · rw [text_ofSource htoken hamong, hmakes.text_of_spelling hpieces hspelling,
      String.ofList_toList]
  · rw [hend] at hspelling
    cases hspelling

theorem isCutShort_of_identifier {source : String} {i : Nat} {token : Token} {kind : TokenKind}
    (htoken : (ofSource source).tokens.get? i = some token) (hkind : token.kind = .identifier)
    (hkeyword : TokenKind.keyword? ((ofSource source).tokens.text i) = some kind) :
    token.IsCutShort source.toList ((ofSource source).tokens.text i) := by
  obtain ⟨front, gap, own, back, hamong, -, hmakes⟩ := exists_among htoken
  have hpieces := hamong.pieces_eq
  rw [← List.append_assoc] at hpieces
  rw [text_ofSource htoken hamong] at hkeyword ⊢
  rcases hmakes with hmakes | ⟨hend, -⟩
  · rw [hkind] at hmakes
    cases hmakes with
    | joined hjoined =>
        rcases TokenKind.joined?_cases hjoined with
          ⟨-, -, hfalse⟩ | ⟨-, -, hfalse⟩ | ⟨-, -, hfalse⟩ <;>
          cases hfalse
    | token _ text =>
        rw [List.flatMap_singleton] at hkeyword ⊢
        obtain ⟨c, after, hrest, hpart, hopens⟩ :=
          Piece.cutShort_of_identifier (Piece.atStart_of_mem hpieces) hkeyword
        refine ⟨(front ++ gap).flatMap (·.text), c, after, ?_, ?_, hpart, hopens⟩
        · rw [hamong.toList_eq, String.toList_ofList, ← hrest]
          simp
        · rw [hamong.span_eq, String.toList_ofList]
          simp [Piece.bytes]
  · rw [hend] at hkind
    cases hkind

theorem agree_ofSource (source : String) : Agree (ofSource source).tokens where
  spelled i token spelling htoken hspelling := by
    have htext := text_of_spelling htoken hspelling
    refine ⟨htext, ?_⟩
    simp only [TokenKind.description, hspelling, htext]
  named i token htoken hkind := by
    rw [source_ofSource]
    cases hkeyword : TokenKind.keyword? ((ofSource source).tokens.text i) with
    | none => exact .inl rfl
    | some kind => exact .inr (isCutShort_of_identifier htoken hkind hkeyword)
  apart i a b ha hb htouch := by
    obtain ⟨hi, rfl⟩ := Array.getElem?_eq_some_iff.1 ha
    obtain ⟨hi', rfl⟩ := Array.getElem?_eq_some_iff.1 hb
    have hpair := List.isChain_iff_getElem.1 (unjoined_ofSource source) i (by simpa using hi')
    exact TokenKind.notMem_joining (hpair (before_of_touching ha hb htouch))

/-- The name `object` in front of a vowel sign is spelled like a hard keyword. -/
theorem not_forall_identifier_soft : ¬∀ (source : String) (i : Nat) (token : Token),
    (ofSource source).tokens.get? i = some token → token.kind = .identifier →
      TokenKind.keyword? ((ofSource source).tokens.text i) = none := by
  intro h
  have hkeyword := h "object\u064c" 0 ⟨.identifier, ⟨0, 6⟩, .empty⟩ (by decide +kernel) rfl
  revert hkeyword
  decide +kernel

end Tokenized
end AnnotationScan
