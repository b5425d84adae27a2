import AnnotationScan.Proofs.Grammar.Decisions
import AnnotationScan.Proofs.Token.Adjacent
import AnnotationScan.Proofs.Token.Sources

/-!
# Rows of tokens as text

A row of tokens is written from left to right, with a blank between two of them where they are to
be kept apart.  The text is read as that row again.
-/

namespace AnnotationScan

namespace Piece

theorem ofText_append_of_atStart {kind : PieceKind} {part rest : List Char} (hne : part ≠ [])
    (h : atStart (part ++ rest) = ⟨kind, part⟩) :
    (ofText (part ++ rest)).toList = ⟨kind, part⟩ :: (ofText rest).toList := by
  obtain ⟨c, cs, rfl⟩ := List.exists_cons_of_ne_nil hne
  rw [List.cons_append] at h ⊢
  rw [ofText_cons, h, ← List.cons_append, List.drop_left]

end Piece

namespace Reading

/-- What stands between a token and the one in front of it. -/
def gap (apart : Reading → Reading → Bool) (front : Option Reading) (a : Reading) : List Char :=
  if front.any (apart · a) then [' '] else []

/-- What that leaves as trivia. -/
def trivia (apart : Reading → Reading → Bool) (front : Option Reading) (a : Reading) : Trivia :=
  if front.any (apart · a) then { blank := true } else .empty

def layout (apart : Reading → Reading → Bool) : (front : Option Reading) → List Reading → List Char
  | _, [] => []
  | front, a :: row => gap apart front a ++ (a.2.toList ++ layout apart (some a) row)

/-- The tokens that a row is read as from an offset on. -/
def tokensFrom (apart : Reading → Reading → Bool) :
    (front : Option Reading) → (offset : Nat) → List Reading → List Token
  | _, _, [] => []
  | front, offset, a :: row =>
    let start := offset + Text.byteLength (gap apart front a)
    let stop := start + Text.byteLength a.2.toList
    ⟨a.1, ⟨start, stop⟩, trivia apart front a⟩ ::
      tokensFrom apart (some a) stop row

/-- Tokens that clash are kept apart. -/
def Legal (apart : Reading → Reading → Bool) (a b : Reading) : Prop :=
  apart a b = true ∨ a.clash b = false

variable {apart : Reading → Reading → Bool} {front : Option Reading} {a : Reading}
  {row : List Reading}

theorem Legible.takeWhile_blank (h : a.Legible) (rest : List Char) :
    (a.2.toList ++ rest).takeWhile Piece.isInlineBlank = [] := by
  obtain ⟨c, cs, htext, hc⟩ := h.exists_cons
  rw [htext]
  apply List.takeWhile_cons_of_neg
  simp only [Piece.isInlineBlank, Bool.or_eq_true, decide_eq_true_eq]
  rintro (((rfl | rfl) | rfl) | rfl) <;> exact hc (by decide)

theorem Legible.ends_layout (h : a.Legible) (hrow : ∀ b ∈ row, b.Legible)
    (hchain : (a :: row).IsChain (Legal apart)) : a.Ends (layout apart (some a) row) := by
  cases row with
  | nil => exact ends_nil
  | cons b row =>
      rw [layout, gap, Option.any_some]
      split
      case isTrue => exact h.ends_blank _
      case isFalse hnot =>
        have hlegal := (List.isChain_cons_cons.1 hchain).1
        exact h.ends_append (hrow b List.mem_cons_self) (hlegal.resolve_left hnot) _

theorem joined?_of_signs : ∀ kind ∈ signs, ∀ next, kind.joined? next = none := by
  intro kind hkind next
  simp only [signs, List.mem_cons, List.not_mem_nil, or_false] at hkind
  rcases hkind with rfl | rfl | rfl | rfl | rfl | rfl | rfl | rfl | rfl | rfl | rfl | rfl <;> rfl

theorem Legible.joined? (h : a.Legible) (kind : TokenKind) : a.1.joined? kind = none := by
  cases h with
  | name _ | inKeyword => rfl
  | sign hkind => exact joined?_of_signs _ hkind kind

end Reading

namespace Tokenized

open Reading

variable {apart : Reading → Reading → Bool} {front : Option Reading} {a : Reading}
  {row : List Reading} {rest : List Char} {progress : Progress}

theorem addToken_of_last {tokens : Array Token} {kind : TokenKind} {span : Span} {before : Trivia}
    (hlast : ∀ last, tokens.back? = some last → last.kind.joined? kind = none) :
    addToken tokens kind span before = tokens.push ⟨kind, span, before⟩ := by
  rcases addToken_cases tokens kind span before with hpush | ⟨front, last, whole, rfl, hjoined, -⟩
  · exact hpush
  · rw [hlast last (by simp)] at hjoined
    cases hjoined

theorem read_gap_append (h : a.Legible) (hends : a.Ends rest) (hpending : progress.pending = .empty)
    (hlast : ∀ last, progress.tokens.back? = some last → last.kind.joined? a.1 = none) :
    let start := progress.offset + Text.byteLength (gap apart front a)
    let stop := start + Text.byteLength a.2.toList
    progress.read (Piece.ofText (gap apart front a ++ (a.2.toList ++ rest))).toList =
      Progress.read ⟨progress.tokens.push ⟨a.1, ⟨start, stop⟩, trivia apart front a⟩,
        progress.faults, stop, .empty⟩ (Piece.ofText rest).toList := by
  have htoken := Piece.ofText_append_of_atStart h.text_ne_nil (Piece.atStart_legible h hends)
  obtain ⟨tokens, faults, offset, pending⟩ := progress
  obtain rfl : pending = .empty := hpending
  have hadd : ∀ offset before, Progress.add ⟨tokens, faults, offset, before⟩
      ⟨.token a.1, a.2.toList⟩ = ⟨tokens.push ⟨a.1, ⟨offset, offset + Text.byteLength a.2.toList⟩,
        before⟩, faults, offset + Text.byteLength a.2.toList, .empty⟩ := by
    intro offset before
    rw [← addToken_of_last hlast]
    rfl
  simp only [gap, trivia]
  split
  case isTrue =>
    have hblank := Piece.atStart_blank (c := ' ') rfl (a.2.toList ++ rest)
    rw [h.takeWhile_blank] at hblank
    have hgap : (Piece.ofText ([' '] ++ (a.2.toList ++ rest))).toList =
        ⟨.blanks, [' ']⟩ :: (Piece.ofText (a.2.toList ++ rest)).toList :=
      Piece.ofText_append_of_atStart (List.cons_ne_nil _ _) hblank
    rw [hgap, htoken, Progress.read, List.foldl_cons, List.foldl_cons]
    change Progress.read (Progress.add ⟨tokens, faults, offset + 1, { blank := true }⟩ _) _ = _
    rw [hadd]
    rfl
  case isFalse =>
    rw [List.nil_append, htoken, Progress.read, List.foldl_cons, hadd]
    rfl

/-- A row of tokens that are apart or do not clash is read as that row. -/
theorem read_layout (hrow : ∀ a ∈ row, a.Legible) (hchain : row.IsChain (Legal apart))
    (hpending : progress.pending = .empty)
    (hlast : ∀ last kind, progress.tokens.back? = some last → last.kind.joined? kind = none) :
    progress.read (Piece.ofText (layout apart front row)).toList =
      ⟨progress.tokens ++ (tokensFrom apart front progress.offset row).toArray, progress.faults,
        progress.offset + Text.byteLength (layout apart front row), .empty⟩ := by
  induction row generalizing front progress with
  | nil =>
      obtain ⟨tokens, faults, offset, pending⟩ := progress
      obtain rfl : pending = .empty := hpending
      simp [layout, tokensFrom, Piece.ofText, Piece.cut, Progress.read]
  | cons a row ih =>
      obtain ⟨hlegible, hrow⟩ := List.forall_mem_cons.1 hrow
      have hends := hlegible.ends_layout hrow hchain
      rw [layout, read_gap_append hlegible hends hpending fun last => hlast last a.1]
      rw [ih hrow hchain.of_cons rfl fun last kind hback => ?_, tokensFrom]
      · simp [Nat.add_assoc]
      · rw [Array.back?_push] at hback
        obtain rfl := Option.some.inj hback
        exact hlegible.joined? kind

theorem covers_tokensFrom {text before after : List Char} (hrow : ∀ a ∈ row, a.Legible)
    (htext : text = before ++ (layout apart front row ++ after)) :
    List.Forall₂ (fun token a => token.kind = a.1 ∧ token.span.Covers text a.2.toList)
      (tokensFrom apart front (Text.byteLength before) row) row := by
  induction row generalizing front before with
  | nil => exact .nil
  | cons a row ih =>
      obtain ⟨hlegible, hrow⟩ := List.forall_mem_cons.1 hrow
      rw [layout] at htext
      have hrest' : text = before ++ gap apart front a ++ a.2.toList ++
          (layout apart (some a) row ++ after) := by simpa using htext
      have hrest := ih hrow hrest'
      rw [Text.byteLength_append, Text.byteLength_append] at hrest
      refine .cons ⟨rfl, hlegible.text_ne_nil, before ++ gap apart front a,
        layout apart (some a) row ++ after, by simpa using htext, ?_⟩ hrest
      simp only [Text.byteLength_append]

theorem stop_tokensFrom {offset : Nat} {last : Token}
    (h : (tokensFrom apart front offset row).getLast? = some last) :
    last.span.stop = offset + Text.byteLength (layout apart front row) := by
  induction row generalizing front offset with
  | nil => cases h
  | cons a row ih =>
      rw [tokensFrom, List.getLast?_cons] at h
      rw [layout]
      cases hrest : (tokensFrom apart (some a) (offset + Text.byteLength (gap apart front a) +
          Text.byteLength a.2.toList) row).getLast? with
      | none =>
          rw [hrest] at h
          obtain rfl := Option.some.inj h
          cases row with
          | nil => simp [layout, Nat.add_assoc]
          | cons b row => simp [tokensFrom] at hrest
      | some last' =>
          rw [hrest] at h
          obtain rfl := Option.some.inj h
          rw [ih hrest]
          simp [Nat.add_assoc]

theorem length_tokensFrom {offset : Nat} : (tokensFrom apart front offset row).length = row.length := by
  induction row generalizing front offset with
  | nil => rfl
  | cons a row ih => simp [tokensFrom, ih]

end Tokenized

namespace Reading

/-- What rules see of a token. -/
structure Fits (a : Reading) (lexeme : Peg.Lexeme TokenKind) : Prop where
  kind : lexeme.kind = a.1
  text : lexeme.text = a.2
  isWord : lexeme.isWord = (a.1 == .identifier)

variable {apart : Reading → Reading → Bool} {row : List Reading}

def text (apart : Reading → Reading → Bool) (row : List Reading) : String :=
  .ofList (layout apart none row)

open Tokenized

theorem tokens_text (hrow : ∀ a ∈ row, a.Legible) (hchain : row.IsChain (Legal apart)) :
    (ofSource (text apart row)).tokens = ⟨text apart row, (tokensFrom apart none 0 row).toArray.push
      ⟨.endOfInput, .point (text apart row).utf8ByteSize, .empty⟩⟩ := by
  have hread : Progress.read {} (Piece.ofText (layout apart none row)).toList =
      ⟨#[] ++ (tokensFrom apart none 0 row).toArray, #[],
        0 + Text.byteLength (layout apart none row), .empty⟩ :=
    read_layout hrow hchain rfl (by simp)
  have hsize := Text.utf8ByteSize_ofList (layout apart none row)
  rw [tokens_ofSource, progress, text, String.toList_ofList, hread, Progress.closed, hsize]
  simp

theorem get?_text (hrow : ∀ a ∈ row, a.Legible) (hchain : row.IsChain (Legal apart)) :
    (ofSource (text apart row)).tokens.get? row.length =
      some ⟨.endOfInput, .point (text apart row).utf8ByteSize, .empty⟩ := by
  have hlength : (tokensFrom apart none 0 row).toArray.size = row.length := by
    rw [List.size_toArray, length_tokensFrom]
  rw [tokens_text hrow hchain, TokenList.get?, ← hlength, Array.getElem?_push_size]

theorem last_text (hrow : ∀ a ∈ row, a.Legible) (hchain : row.IsChain (Legal apart)) :
    (ofSource (text apart row)).tokens.toSource.last = row.length := by
  rw [TokenList.last_toSource, tokens_text hrow hchain]
  simp [length_tokensFrom]

theorem lexeme_text (hrow : ∀ a ∈ row, a.Legible) (hchain : row.IsChain (Legal apart)) {n : Nat}
    {token : Token} (h : (tokensFrom apart none 0 row)[n]? = some token) :
    (ofSource (text apart row)).tokens.toSource.lexeme n =
      (ofSource (text apart row)).tokens.lexemeOf token := by
  obtain ⟨hn, rfl⟩ := List.getElem?_eq_some_iff.1 h
  apply TokenList.lexeme_toSource
  rw [tokens_text hrow hchain, Array.getElem?_push_lt (by simpa using hn)]
  simp

theorem reads_text (hrow : ∀ a ∈ row, a.Legible) (hchain : row.IsChain (Legal apart)) :
    (ofSource (text apart row)).tokens.toSource.Reads Fits row 0 row.length := by
  have hlast := last_text hrow hchain
  have hlayout : layout apart none row = [] ++ (layout apart none row ++ []) := by simp
  have hcovers := covers_tokensFrom hrow hlayout
  suffices hreads : (ofSource (text apart row)).tokens.toSource.Reads Fits row 0 (0 + row.length) by
    rwa [Nat.zero_add] at hreads
  refine Peg.Source.reads_of_forall (by omega) fun n hn => ?_
  have hn' : n < (tokensFrom apart none 0 row).length := by rwa [length_tokensFrom]
  obtain ⟨hkind, hcover⟩ := hcovers.get hn' hn
  have htext := TokenList.textAt_of_covers hcover (ofSource (text apart row)).tokens.tokens
  rw [String.ofList_toList] at htext
  rw [Nat.zero_add, lexeme_text hrow hchain (List.getElem?_eq_getElem hn')]
  refine ⟨hkind, ?_, congrArg (· == TokenKind.identifier) hkind⟩
  rw [TokenList.lexemeOf, tokens_text hrow hchain]
  exact htext

theorem spanFrom_text (hrow : ∀ a ∈ row, a.Legible) (hchain : row.IsChain (Legal apart))
    (hne : row ≠ []) : (ofSource (text apart row)).tokens.toSource.spanFrom 0 row.length =
      ⟨0, (text apart row).utf8ByteSize⟩ := by
  obtain ⟨a, rest, rfl⟩ := List.exists_cons_of_ne_nil hne
  have hlength : (tokensFrom apart none 0 (a :: rest)).length = (a :: rest).length :=
    length_tokensFrom
  obtain ⟨last, hlast⟩ : ∃ last, (tokensFrom apart none 0 (a :: rest)).getLast? = some last :=
    Option.isSome_iff_exists.1 (by simp [tokensFrom])
  have hstop := stop_tokensFrom hlast
  rw [List.getLast?_eq_getElem?, hlength] at hlast
  have hsize := Text.utf8ByteSize_ofList (layout apart none (a :: rest))
  have hpos : ¬(a :: rest).length ≤ 0 := Nat.not_le.2 (Nat.succ_pos rest.length)
  rw [Peg.Source.spanFrom, if_neg hpos, lexeme_text hrow hchain rfl,
    lexeme_text hrow hchain hlast]
  simp only [TokenList.lexemeOf, Span.merge, hstop, text, hsize, gap, Option.any_none]
  simp [layout, gap]

end Reading
end AnnotationScan
