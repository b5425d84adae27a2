import AnnotationScan.Proofs.Token.Gaps

/-!
# The pieces that tokens are made of

A token is made of one piece, or of two that touch.  Between two tokens there are only pieces that
leave trivia, and these are what the second token is told to have in front of it.
-/

namespace AnnotationScan

def Piece.bytes (pieces : List Piece) : Nat := Text.byteLength (pieces.flatMap (·.text))

theorem Piece.bytes_append (pieces more : List Piece) :
    bytes (pieces ++ more) = bytes pieces + bytes more := by
  rw [bytes, List.flatMap_append, Text.byteLength_append]
  rfl

theorem Piece.bytes_nil : bytes [] = 0 := rfl

theorem Piece.bytes_cons (piece : Piece) (pieces : List Piece) :
    bytes (piece :: pieces) = piece.size + bytes pieces := by
  rw [bytes, List.flatMap_cons, Text.byteLength_append]
  rfl

theorem Piece.bytes_singleton (piece : Piece) : bytes [piece] = piece.size :=
  bytes_cons piece []

theorem TokenKind.joined?_cases {a b whole : TokenKind} (h : a.joined? b = some whole) :
    a = .bang ∧ b = .inKeyword ∧ whole = .notIn ∨ a = .bang ∧ b = .isKeyword ∧ whole = .notIs ∨
      a = .asKeyword ∧ b = .question ∧ whole = .safeCast := by
  unfold joined? at h
  split at h <;> simp_all

namespace Tokenized

/-- The pieces that a token of some kind is made of. -/
inductive Makes : TokenKind → List Piece → Prop
  | token (kind : TokenKind) (text : List Char) : Makes kind [⟨.token kind, text⟩]
  | joined {a b whole : TokenKind} (h : a.joined? b = some whole) (first second : List Char) :
      Makes whole [⟨.token a, first⟩, ⟨.token b, second⟩]
  | fault (kind : FaultKind) (text : List Char) : Makes .malformed [⟨.fault kind, text⟩]

/-- A token that may join with the next one is made of one piece. -/
theorem Makes.single {a b whole : TokenKind} {own : List Piece} (h : Makes a own)
    (hjoined : a.joined? b = some whole) : ∃ text, own = [⟨.token a, text⟩] := by
  cases h with
  | token _ text => exact ⟨text, rfl⟩
  | joined hwhole =>
      rcases TokenKind.joined?_cases hwhole with ⟨-, -, rfl⟩ | ⟨-, -, rfl⟩ | ⟨-, -, rfl⟩ <;>
        cases hjoined
  | fault => cases hjoined

/-- Where a token stands among the pieces of a text: behind those in `front`, which end in a token,
and the trivia in `gap`. -/
structure Among (pieces : List Piece) (token : Token) (front gap own back : List Piece) : Prop where
  pieces_eq : pieces = front ++ (gap ++ (own ++ back))
  trivia : ∀ piece ∈ gap, piece.trivia?.isSome = true
  span_eq : token.span = ⟨Piece.bytes (front ++ gap), Piece.bytes (front ++ (gap ++ own))⟩
  before_eq : token.before = Trivia.ofPieces gap

namespace Among

variable {text : String} {token : Token} {front gap own back : List Piece}

theorem toList_eq (h : Among (Piece.ofText text.toList).toList token front gap own back) :
    text.toList = front.flatMap (·.text) ++ (gap.flatMap (·.text) ++
      (own.flatMap (·.text) ++ back.flatMap (·.text))) := by
  rw [← List.flatMap_append, ← List.flatMap_append, ← List.flatMap_append, ← h.pieces_eq,
    Piece.text_ofText]

theorem text_eq (h : Among (Piece.ofText text.toList).toList token front gap own back) :
    text = .ofList (front.flatMap (·.text) ++ (gap.flatMap (·.text) ++
      (own.flatMap (·.text) ++ back.flatMap (·.text)))) := by
  rw [← h.toList_eq, String.ofList_toList]

theorem slice_gap (h : Among (Piece.ofText text.toList).toList token front gap own back) :
    Text.slice? text (Piece.bytes front) token.span.start =
      some (.ofList (gap.flatMap (·.text))) := by
  rw [h.span_eq, h.text_eq, ← List.append_assoc, Piece.bytes, Piece.bytes, List.flatMap_append]
  exact Text.slice?_append _ _ _

theorem exists_text (h : Among (Piece.ofText text.toList).toList token front gap own back) :
    ∃ before after, text.toList = before ++ own.flatMap (·.text) ++ after ∧
      token.span = ⟨Text.byteLength before, Text.byteLength (before ++ own.flatMap (·.text))⟩ := by
  refine ⟨(front ++ gap).flatMap (·.text), back.flatMap (·.text), ?_, ?_⟩
  · rw [h.toList_eq]
    simp
  · rw [h.span_eq, ← List.append_assoc, ← List.flatMap_append]
    rfl

theorem slice_own (h : Among (Piece.ofText text.toList).toList token front gap own back) :
    Text.slice? text token.span.start token.span.stop =
      some (.ofList (own.flatMap (·.text))) := by
  obtain ⟨before, after, htext, hspan⟩ := h.exists_text
  have hslice := Text.slice?_append before (own.flatMap (·.text)) after
  rw [← htext, String.ofList_toList] at hslice
  rw [hspan]
  exact hslice

end Among

/-- Tokens stand for pieces that end in a token. -/
inductive Stands : List Piece → List Token → Prop
  | nil : Stands [] []
  | token {pieces front gap own : List Piece} {tokens : List Token} {token : Token}
      (hfront : Stands front tokens) (hamong : Among pieces token front gap own [])
      (hown : Makes token.kind own) : Stands pieces (tokens ++ [token])

namespace Stands

variable {pieces : List Piece} {tokens : List Token}

theorem stop (h : Stands pieces tokens) :
    tokens.getLast?.elim 0 (·.span.stop) = Piece.bytes pieces := by
  cases h with
  | nil => rfl
  | token _ hamong _ =>
      rw [List.getLast?_concat, Option.elim_some, hamong.span_eq, hamong.pieces_eq,
        List.append_nil]

theorem among (h : Stands pieces tokens) {i : Nat} {token : Token} (htoken : tokens[i]? = some token) :
    ∃ front gap own back, Stands front (tokens.take i) ∧ Among pieces token front gap own back ∧
      Makes token.kind own := by
  induction h with
  | nil => cases htoken
  | @token pieces front gap own tokens last hfront hamong hown ih =>
      rcases Nat.lt_trichotomy i tokens.length with hlt | rfl | hgt
      · rw [List.getElem?_append_left hlt] at htoken
        obtain ⟨front', gap', own', back', hstands, hplace, hmakes⟩ := ih htoken
        refine ⟨front', gap', own', back' ++ (gap ++ own), ?_, ⟨?_, hplace.trivia, hplace.span_eq,
          hplace.before_eq⟩, hmakes⟩
        · rwa [List.take_append_of_le_length (Nat.le_of_lt hlt)]
        · rw [hamong.pieces_eq, hplace.pieces_eq]
          simp
      · rw [List.getElem?_concat_length] at htoken
        obtain rfl := Option.some.inj htoken
        rw [List.take_left]
        exact ⟨front, gap, own, [], hfront, hamong, hown⟩
      · rw [List.getElem?_eq_none (by simp only [List.length_append, List.length_singleton]; omega)] at htoken
        cases htoken

end Stands

namespace Progress

/-- Some pieces have been read: tokens stand for the first of them, and the others left trivia. -/
structure Holds (progress : Progress) (front gap : List Piece) : Prop where
  stands : Stands front progress.tokens.toList
  trivia : ∀ piece ∈ gap, piece.trivia?.isSome = true
  offset_eq : progress.offset = Piece.bytes (front ++ gap)
  pending_eq : progress.pending = Trivia.ofPieces gap

namespace Holds

variable {progress : Progress} {front gap : List Piece}

theorem start : Holds {} [] [] := by
  constructor
  · exact .nil
  · simp
  · rfl
  · rfl

theorem gap_eq_nil (h : progress.Holds front gap) (hpending : progress.pending = .empty) :
    gap = [] := by
  cases gap with
  | nil => rfl
  | cons piece gap =>
      have hmark := Trivia.ofPieces_ne_empty (h.trivia piece List.mem_cons_self) gap
      exact absurd (h.pending_eq.symm.trans hpending) hmark

theorem push (h : progress.Holds front gap) {piece : Piece} {kind : TokenKind}
    (hpiece : Makes kind [piece]) :
    Stands (front ++ (gap ++ [piece])) (progress.tokens.push
      ⟨kind, ⟨progress.offset, progress.offset + piece.size⟩, progress.pending⟩).toList := by
  rw [Array.toList_push]
  refine .token h.stands ⟨by rw [List.append_nil], h.trivia, ?_, h.pending_eq⟩ hpiece
  rw [← List.append_assoc, Piece.bytes_append _ [piece], Piece.bytes_singleton, h.offset_eq]

theorem join {tokens : Array Token} {last : Token} {kind whole : TokenKind} {text : List Char}
    (h : Stands front (tokens.push last).toList) (hjoined : last.kind.joined? kind = some whole) :
    Stands (front ++ [⟨.token kind, text⟩]) (tokens.push ⟨whole, last.span.merge
      ⟨Piece.bytes front, Piece.bytes front + Text.byteLength text⟩, last.before⟩).toList := by
  rw [Array.toList_push] at h ⊢
  generalize hlist : tokens.toList ++ [last] = list at h
  cases h with
  | nil => simp at hlist
  | @token _ before gap own _ token hbefore hamong hown =>
      obtain ⟨htokens, hlast⟩ := List.append_inj' hlist rfl
      obtain rfl := (List.cons.inj hlast).1
      obtain ⟨first, rfl⟩ := hown.single hjoined
      rw [htokens, hamong.pieces_eq, List.append_nil]
      refine .token hbefore ⟨?_, hamong.trivia, ?_, hamong.before_eq⟩ (.joined hjoined first text)
      · simp
      · rw [hamong.span_eq]
        simp only [Span.merge, Piece.bytes_append, Piece.bytes_cons, Piece.bytes_nil, Piece.size,
          Span.mk.injEq]
        omega

/-- One more piece leaves trivia, or it comes to a token behind all pieces. -/
theorem add (h : progress.Holds front gap) (piece : Piece) :
    ∃ front' gap', front' ++ gap' = front ++ gap ++ [piece] ∧
      (progress.add piece).Holds front' gap' := by
  obtain ⟨kind, text⟩ := piece
  have hoffset : ∀ kind, progress.offset + Piece.size ⟨kind, text⟩ =
      Piece.bytes (front ++ (gap ++ [⟨kind, text⟩])) := by
    intro kind
    rw [← List.append_assoc, Piece.bytes_append _ [_], Piece.bytes_singleton, h.offset_eq]
  cases kind with
  | blanks | lineFeed | lineComment | blockComment =>
      refine ⟨front, gap ++ [_], (List.append_assoc _ _ _).symm, h.stands, ?_, hoffset _, ?_⟩
      · rw [List.forall_mem_append]
        exact ⟨h.trivia, by simp [Piece.trivia?]⟩
      · rw [Trivia.ofPieces_append, Trivia.ofPieces_singleton, ← h.pending_eq]
        exact rfl
  | fault kind =>
      refine ⟨front ++ (gap ++ [⟨.fault kind, text⟩]), [], by simp, h.push (.fault kind text),
        by simp, ?_, rfl⟩
      rw [List.append_nil]
      exact hoffset _
  | token kind =>
      refine ⟨front ++ (gap ++ [⟨.token kind, text⟩]), [], by simp, ?_, by simp, ?_, rfl⟩
      · -- only a token that nothing separates from the one before can be joined to it
        by_cases hpending : progress.pending = .empty
        · have hpush := h.push (.token kind text)
          obtain rfl := h.gap_eq_nil hpending
          have hend : progress.offset = Piece.bytes front := by
            rw [h.offset_eq, List.append_nil]
          rcases addToken_cases progress.tokens kind ⟨progress.offset,
            progress.offset + Piece.size ⟨.token kind, text⟩⟩ progress.pending with
            hadd | ⟨tokens, last, whole, htokens, hjoined, hadd⟩
          · change Stands _ (addToken _ _ _ _).toList
            rwa [hadd]
          · have hstands := h.stands
            rw [htokens] at hstands
            change Stands _ (addToken _ _ _ _).toList
            rw [hadd, hend]
            exact join hstands hjoined
        · change Stands _ (addToken _ _ _ _).toList
          rw [addToken_apart _ _ _ hpending]
          exact h.push (.token kind text)
      · rw [List.append_nil]
        exact hoffset _

theorem read (h : progress.Holds front gap) (pieces : List Piece) :
    ∃ front' gap', front' ++ gap' = front ++ gap ++ pieces ∧
      (progress.read pieces).Holds front' gap' := by
  induction pieces generalizing progress front gap with
  | nil => exact ⟨front, gap, by simp, h⟩
  | cons piece pieces ih =>
      obtain ⟨front', gap', hadded, hadd⟩ := h.add piece
      obtain ⟨front'', gap'', hread, hholds⟩ := ih hadd
      refine ⟨front'', gap'', ?_, hholds⟩
      rw [hread, hadded]
      simp

end Holds
end Progress

theorem exists_holds (text : String) : ∃ front gap,
    (Piece.ofText text.toList).toList = front ++ gap ∧ (progress text).Holds front gap := by
  obtain ⟨front, gap, hpieces, hholds⟩ :=
    Progress.Holds.start.read (Piece.ofText text.toList).toList
  exact ⟨front, gap, hpieces.symm, hholds⟩

end Tokenized

/-- Where the token in front of the one with an index ends. -/
def TokenList.stopBefore (list : TokenList) : (index : Nat) → Nat
  | 0 => 0
  | index + 1 => (list.get? index).elim 0 (·.span.stop)

namespace Tokenized

/-- Every token of a text, the mark of the end included, stands behind the one in front of it and
pieces that leave trivia. -/
theorem exists_among {text : String} {i : Nat} {token : Token}
    (htoken : (ofSource text).tokens.get? i = some token) :
    ∃ front gap own back, Among (Piece.ofText text.toList).toList token front gap own back ∧
      (ofSource text).tokens.stopBefore i = Piece.bytes front ∧
      (Makes token.kind own ∨ token.kind = .endOfInput ∧ own = [] ∧ back = []) := by
  obtain ⟨front, gap, hpieces, hholds⟩ := exists_holds text
  have hstop : ∀ {front : List Piece}, Stands front ((progress text).tokens.toList.take i) →
      i ≤ (progress text).tokens.size →
      (ofSource text).tokens.stopBefore i = Piece.bytes front := by
    intro front hstands hi
    rw [← hstands.stop]
    cases i with
    | zero => rfl
    | succ i =>
        rw [TokenList.stopBefore, tokens_ofSource, TokenList.get?, Progress.closed,
          Array.getElem?_push_lt hi, List.getLast?_take, Array.getElem?_toList]
        simp [Array.getElem?_eq_getElem hi]
  rw [tokens_ofSource] at htoken
  obtain ⟨hi, hget⟩ := Array.getElem?_eq_some_iff.1 htoken
  simp only [Progress.closed, Array.size_push] at hi
  rcases Nat.lt_or_eq_of_le (Nat.le_of_lt_succ hi) with hlt | rfl
  · rw [TokenList.get?, Progress.closed, Array.getElem?_push_lt hlt,
      ← Array.getElem?_eq_getElem, ← Array.getElem?_toList] at htoken
    obtain ⟨before, gap', own, back, hstands, hamong, hown⟩ := hholds.stands.among htoken
    refine ⟨before, gap', own, back ++ gap, ⟨?_, hamong.trivia, hamong.span_eq,
      hamong.before_eq⟩, hstop hstands (Nat.le_of_lt hlt), .inl hown⟩
    rw [hpieces, hamong.pieces_eq]
    simp
  · rw [TokenList.get?, Progress.closed, Array.getElem?_push_size] at htoken
    obtain rfl := Option.some.inj htoken
    refine ⟨front, gap, [], [], ⟨by simp [hpieces], hholds.trivia, ?_, hholds.pending_eq⟩,
      hstop ?_ (Nat.le_refl _), .inr ⟨rfl, rfl, rfl⟩⟩
    · simp [Span.point, hholds.offset_eq]
    · rw [← Array.length_toList, List.take_length]
      exact hholds.stands

theorem source_ofSource (text : String) : (ofSource text).tokens.source = text := by
  rw [tokens_ofSource]

/-- The text of a token is that of its pieces. -/
theorem text_ofSource {text : String} {i : Nat} {token : Token} {front gap own back : List Piece}
    (htoken : (ofSource text).tokens.get? i = some token)
    (h : Among (Piece.ofText text.toList).toList token front gap own back) :
    (ofSource text).tokens.text i = .ofList (own.flatMap (·.text)) := by
  rw [TokenList.text, htoken]
  dsimp only
  rw [TokenList.textAt, source_ofSource, h.slice_own, Option.getD_some]

end Tokenized
end AnnotationScan
