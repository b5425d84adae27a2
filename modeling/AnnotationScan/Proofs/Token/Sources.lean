import AnnotationScan.Proofs.Grammar.Continuation
import AnnotationScan.Proofs.Token.Layout

/-!
# Sources of texts that go on

A text whose last token ends it is followed by a gap and any other text.  Its tokens are the first
ones of the whole, and the source of the whole goes on where its own source ends.
-/

namespace AnnotationScan

open Peg

namespace TokenList

def lexemeOf (list : TokenList) (token : Token) : Lexeme TokenKind where
  kind := token.kind
  span := token.span
  text := list.textAt token.span
  isWord := token.kind == .identifier
  newlineBefore := token.before.lineFeed

theorem lexeme_toSource (list : TokenList) {i : Nat} {token : Token}
    (htoken : list.tokens[i]? = some token) : list.toSource.lexeme i = list.lexemeOf token := by
  obtain ⟨h, rfl⟩ := Array.getElem?_eq_some_iff.1 htoken
  by_cases hi : i < list.tokens.size - 1
  · simp [Source.lexeme, toSource, Array.getD, hi]
    rfl
  · obtain rfl : i = list.tokens.size - 1 := by omega
    rw [Source.lexeme_of_last_le _ (by simp [Source.last, toSource])]
    simp [toSource, Array.back?, h]
    rfl

theorem last_toSource (list : TokenList) : list.toSource.last = list.tokens.size - 1 := by
  simp [toSource, Source.last]

theorem get?_of_le_last {list : TokenList} (hsize : 0 < list.size) {i : Nat}
    (hi : i ≤ list.toSource.last) : ∃ token, list.get? i = some token := by
  rw [last_toSource] at hi
  have hlt : i < list.tokens.size := by
    unfold size at hsize
    omega
  exact ⟨_, Array.getElem?_eq_getElem hlt⟩

theorem textAt_of_covers {text part : List Char} {span : Span} (h : span.Covers text part)
    (tokens : Array Token) : (TokenList.mk (.ofList text) tokens).textAt span = .ofList part := by
  obtain ⟨-, before, after, rfl, rfl⟩ := h
  rw [textAt, Text.slice?_append]
  rfl

variable {text : List Char} {front rest : Array Token} {stop : Token}

theorem marked_toSource (hstop : stop.kind = .endOfInput) (source : String) (front : Array Token) :
    (TokenList.mk source (front.push stop)).toSource.Marked := by
  have hmarker : (TokenList.mk source (front.push stop)).toSource.marker.kind = .endOfInput := by
    simp [toSource, hstop]
  refine ⟨hmarker, fun i hword => ?_⟩
  by_cases hi : i < (front.push stop).size
  · rw [lexeme_toSource _ (Array.getElem?_eq_getElem hi)] at hword ⊢
    exact eq_of_beq hword
  · have hlast : (TokenList.mk source (front.push stop)).toSource.last ≤ i := by
      rw [last_toSource]
      exact Nat.le_trans (Nat.sub_le _ 1) (Nat.le_of_not_lt hi)
    rw [Source.lexeme_of_last_le _ hlast] at hword
    simp [toSource, hstop] at hword

theorem continues_toSource {source : String} (hsource : source = .ofList text)
    (hstop : stop.kind = .endOfInput) (hlaid : Tokenized.Laid text front.toList)
    (hrest : 0 < rest.size) (more : List Char) :
    (TokenList.mk source (front.push stop)).toSource.Continues
      (TokenList.mk (.ofList (text ++ more)) (front ++ rest)).toSource := by
  subst hsource
  refine ⟨marked_toSource hstop _ front, ?_, fun i hi => ?_⟩
  · rw [last_toSource, last_toSource, Array.size_push, Array.size_append]
    omega
  · rw [last_toSource, Array.size_push, Nat.add_sub_cancel] at hi
    have hpush : (front.push stop)[i]? = some front[i] := Array.getElem?_push_lt hi
    have happend : (front ++ rest)[i]? = some front[i] := by
      rw [Array.getElem?_append_left hi, Array.getElem?_eq_getElem hi]
    obtain ⟨part, hpart⟩ := hlaid.covers front[i] (by simp)
    rw [lexeme_toSource _ hpush, lexeme_toSource _ happend]
    rw [lexemeOf, lexemeOf, textAt_of_covers hpart, textAt_of_covers (hpart.append more)]

end TokenList

namespace Tokenized

def progress (text : String) : Progress := Progress.read {} (Piece.ofText text.toList).toList

theorem tokens_ofSource (text : String) :
    (ofSource text).tokens = ⟨text, (progress text).closed⟩ := by
  rw [ofSource_eq]
  rfl

theorem utf8ByteSize_eq (text : String) : text.utf8ByteSize = Text.byteLength text.toList := by
  rw [← Text.utf8ByteSize_ofList, String.ofList_toList]

theorem offset_progress (text : String) : (progress text).offset = text.utf8ByteSize := by
  rw [utf8ByteSize_eq]
  exact (Progress.reads_ofText text.toList).offset_eq

theorem size_ofSource (text : String) :
    (ofSource text).tokens.size = (progress text).tokens.size + 1 := by
  rw [tokens_ofSource, TokenList.size, Progress.closed, Array.size_push]

theorem last_ofSource (text : String) :
    (ofSource text).tokens.toSource.last = (progress text).tokens.size := by
  have hsize := size_ofSource text
  rw [TokenList.last_toSource]
  exact Nat.sub_eq_of_eq_add hsize

theorem marked_ofSource (text : String) : (ofSource text).tokens.toSource.Marked := by
  rw [tokens_ofSource]
  exact TokenList.marked_toSource rfl _ _

theorem lexeme_ofSource {text : String} {i : Nat} (hi : i < (progress text).tokens.size) :
    (ofSource text).tokens.toSource.lexeme i =
      (ofSource text).tokens.lexemeOf (progress text).tokens[i] := by
  apply TokenList.lexeme_toSource _
  rw [tokens_ofSource, Progress.closed, Array.getElem?_push_lt hi]

theorem laid_progress (text : String) : Laid text.toList (progress text).tokens.toList :=
  (Progress.reads_ofText text.toList).laid

theorem progress_append {text gap : String} (hcomplete : Piece.Complete (Piece.ofText text.toList).toList)
    (hne : gap ≠ "") (hgap : gap.toList.all Form.isGap = true) (more : String) :
    progress (text ++ gap ++ more) =
      (gap.toList.foldl Progress.past (progress text)).followedBy (progress more) := by
  obtain ⟨c, cs, hcs⟩ := List.exists_cons_of_ne_nil (show gap.toList ≠ [] by simpa using hne)
  have hc : Form.isGap c = true := List.all_eq_true.1 hgap c (by simp [hcs])
  let front := gap.toList.foldl Progress.past (progress text)
  have hfront : front.pending ≠ .empty := Progress.pending_past _ (.inr (by simp [hcs]))
  rw [progress, String.toList_append, String.toList_append, List.append_assoc, hcs,
    List.cons_append, Piece.ofText_append hcomplete hc, Progress.read, List.foldl_append,
    ← List.cons_append, ← hcs]
  change (progress text).read _ = _
  rw [Progress.read_gaps _ hgap]
  change front.read _ = _
  have hrest := Progress.read_followedBy front {} (fun _ => hfront) (Piece.ofText more.toList).toList
  rw [Progress.followedBy_start] at hrest
  exact hrest

theorem tokens_append {text gap : String} (hcomplete : Piece.Complete (Piece.ofText text.toList).toList)
    (hne : gap ≠ "") (hgap : gap.toList.all Form.isGap = true) (more : String) :
    ∃ before : Trivia, (before.lineFeed = true ↔
        (progress text).pending.lineFeed = true ∨ '\n' ∈ gap.toList) ∧
      (ofSource (text ++ gap ++ more)).tokens =
        ⟨.ofList (text.toList ++ (gap.toList ++ more.toList)),
          (progress text).tokens ++ (progress more).closed.mapIdx fun i =>
            behind (text.utf8ByteSize + gap.utf8ByteSize) (if i = 0 then before else .empty)⟩ := by
  refine ⟨(gap.toList.foldl Progress.past (progress text)).pending, ?_, ?_⟩
  · rw [Progress.lineFeed_past, Bool.or_eq_true, List.contains_iff_mem]
  · rw [tokens_ofSource, progress_append hcomplete hne hgap, Progress.closed_followedBy,
      Progress.tokens_past, Progress.offset_past, ← utf8ByteSize_eq, offset_progress]
    simp [String.append_assoc]

/-- The source of a complete text, a gap and another text goes on behind the first text with the
first token of the other one. -/
theorem ofSource_append {text gap : String}
    (hcomplete : Piece.Complete (Piece.ofText text.toList).toList) (hne : gap ≠ "")
    (hgap : gap.toList.all Form.isGap = true) {more : String} {first : Token}
    (hfirst : (ofSource more).tokens.get? 0 = some first) :
    let list := (ofSource (text ++ gap ++ more)).tokens
    (ofSource text).tokens.toSource.Continues list.toSource ∧
      ∃ before : Trivia, ('\n' ∈ gap.toList → before.lineFeed = true) ∧
        list.get? (ofSource text).tokens.toSource.last =
          some (behind (text.utf8ByteSize + gap.utf8ByteSize) before first) := by
  obtain ⟨before, hbefore, htokens⟩ := tokens_append hcomplete hne hgap more
  rw [tokens_ofSource] at hfirst
  obtain ⟨hsize, rfl⟩ := Array.getElem?_eq_some_iff.1 hfirst
  refine ⟨?_, before, fun hfeed => hbefore.2 (.inr hfeed), ?_⟩
  · rw [htokens, tokens_ofSource, Progress.closed]
    exact TokenList.continues_toSource String.ofList_toList.symm rfl (laid_progress text)
      (by simpa using hsize) _
  · rw [last_ofSource, TokenList.get?, htokens, Array.getElem?_append_right (Nat.le_refl _)]
    simp [hsize]

end Tokenized
end AnnotationScan
