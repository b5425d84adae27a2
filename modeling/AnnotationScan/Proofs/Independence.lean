import AnnotationScan.Proofs.Agreement
import AnnotationScan.Proofs.Grammar.Lines
import AnnotationScan.Proofs.Peg.Translation
import AnnotationScan.Proofs.Token.Search
import AnnotationScan.Proofs.Token.Suffixes
import AnnotationScan.Scan

/-!
# Nothing in front matters

A scan that starts at a token is a scan of the text from that token's start on, with every offset
moved.  The tokenizer takes up there as at the start of a text, rules look at no token in front of
the first one, and an entry does not ask whether a line break precedes the token it starts at.
-/

namespace AnnotationScan

open Peg

/-- Failures correspond that have the same reason and the same token, and whose offsets are moved;
values correspond if they are moved. -/
def Peg.Likeness.moved {κ : Type} {source source' : Source κ} (offset : Nat)
    (hspan : ∀ i, (source.lexeme i).span = (source'.lexeme i).span.moved offset) :
    Likeness source source' where
  failure f g := f.reason = g.reason ∧ f.index = g.index ∧ f.offset = offset + g.offset
  value v w := v = w.moved offset
  failureAt _ i := ⟨rfl, rfl, congrArg Span.start (hspan i)⟩
  deeper := Failure.deeper_rel
    (R := fun f g => f.reason = g.reason ∧ f.index = g.index ∧ f.offset = offset + g.offset)
    fun _ _ h => h.2.1
  better := Failure.better_rel
    (R := fun f g => f.reason = g.reason ∧ f.index = g.index ∧ f.offset = offset + g.offset)
    fun _ _ h => ⟨h.1, h.2.1⟩
  lexeme := hspan
  spanFrom start stop := by
    rw [Source.spanFrom, Source.spanFrom]
    split
    · rw [Source.offset, Source.offset, hspan stop]
      rfl
    · rw [hspan start, hspan (stop - 1), ← Span.moved_merge]
  endPoint h := h ▸ rfl

theorem Peg.Source.Marked.behind {source : Source TokenKind} (h : source.Marked) (k : Nat) :
    (source.behind k).Marked := by
  refine ⟨h.marker, fun i hword => ?_⟩
  rw [Source.lexeme_behind] at hword ⊢
  exact h.word _ hword

namespace Tokenized.Resumes

variable {text rest : String} {index offset : Nat}

/-- The tokens of the text from `index` on look like those of the rest, but for the trivia in front
of the first one. -/
theorem lexeme (h : Resumes text rest index offset) {i : Nat}
    (hi : i ≤ (ofSource rest).tokens.toSource.last) :
    let whole := (ofSource text).tokens.toSource.lexeme (index + i)
    let own := (ofSource rest).tokens.toSource.lexeme i
    whole.kind = own.kind ∧ whole.span = own.span.moved offset ∧ whole.isWord = own.isWord ∧
      (whole.isWord = true → whole.text = own.text) ∧
      (0 < i → whole.newlineBefore = own.newlineBefore) := by
  intro whole own
  obtain ⟨before, hbefore, hget⟩ := h.get? i
  rw [last_ofSource] at hi
  obtain ⟨token, htoken⟩ : ∃ token, (ofSource rest).tokens.get? i = some token := by
    rw [tokens_ofSource]
    exact ⟨_, Array.getElem?_eq_getElem (by simpa [Progress.closed] using Nat.lt_succ_of_le hi)⟩
  rw [htoken, Option.map_some] at hget
  have hwhole : whole = (ofSource text).tokens.lexemeOf (behind offset before token) :=
    TokenList.lexeme_toSource _ hget
  have hown : own = (ofSource rest).tokens.lexemeOf token := TokenList.lexeme_toSource _ htoken
  rw [hwhole, hown]
  refine ⟨rfl, rfl, rfl, fun hword => ?_, fun hpos => ?_⟩
  · apply h.textAt token
    rcases Nat.lt_or_eq_of_le hi with hlt | rfl
    · rw [tokens_ofSource, TokenList.get?, Progress.closed, Array.getElem?_push_lt hlt] at htoken
      obtain rfl := Option.some.inj htoken
      exact Array.getElem_mem hlt
    · rw [tokens_ofSource, TokenList.get?, Progress.closed, Array.getElem?_push_size] at htoken
      obtain rfl := Option.some.inj htoken
      cases hword
  · rw [hbefore hpos]
    exact congrArg Trivia.lineFeed (Trivia.empty_union token.before)

theorem span_lexeme (h : Resumes text rest index offset) (i : Nat) :
    (((ofSource text).tokens.toSource.behind index).lexeme i).span =
      ((ofSource rest).tokens.toSource.lexeme i).span.moved offset := by
  rw [Source.lexeme_behind]
  rcases Nat.le_total i (ofSource rest).tokens.toSource.last with hi | hi
  · exact (h.lexeme hi).2.1
  · have hlast := (h.lexeme (Nat.le_refl _)).2.1
    rw [← h.last_eq, Source.lexeme_of_last_le _ (Nat.le_refl _),
      Source.lexeme_of_last_le _ (Nat.le_refl _)] at hlast
    rw [Source.lexeme_of_last_le _ hi, Source.lexeme_of_last_le _ (by rw [h.last_eq]; omega), hlast]

/-- Whatever an entry attempts on the rest, the tokens look alike there. -/
theorem alikeFor (h : Resumes text rest index offset) (settings : Settings) (entry : Entry) {i : Nat}
    (hi : i ≤ (ofSource rest).tokens.toSource.last) :
    ((ofSource text).tokens.toSource.behind index).AlikeFor (ofSource rest).tokens.toSource
      (Recognizer.build settings).definitions ((Recognizer.build settings).rule entry) true i := by
  intro part count place hv
  have hlast : ((ofSource text).tokens.toSource.behind index).last =
      (ofSource rest).tokens.toSource.last := by
    rw [Source.last_behind, h.last_eq, Nat.add_sub_cancel_left]
  obtain ⟨hplace, hinside⟩ := hv.bounds (hlast ▸ hi)
  rw [hlast] at hinside
  obtain ⟨hkind, -, hword, htext, hline⟩ := h.lexeme hinside
  rw [← Source.lexeme_behind] at hkind hword htext hline
  constructor
  · exact hinside
  · rw [Source.next, Source.next, hlast]
  · exact hkind
  · exact hword
  · intro word _ hisWord
    rw [htext hisWord]
  · rintro rfl -
    -- only the first token may differ in the trivia in front of it, and there nothing asks for them
    refine hline (Nat.lt_of_le_of_lt (Nat.zero_le i) ?_)
    exact Grammar.lt_of_visits_entry ((marked_ofSource text).behind index) hv (hlast ▸ hi)

end Tokenized.Resumes

namespace Recognizer

/-- An answer with its tokens counted from `index` tokens earlier. -/
def shiftedAnswer (index : Nat) : Except Failure Recognized → Except Failure Recognized
  | .ok recognized => .ok ⟨recognized.span, index + recognized.stop⟩
  | .error failure => .error (failure.shifted index)

/-- An answer with its tokens counted from `index` tokens earlier and `offset` bytes further on. -/
def movedAnswer (index offset : Nat) : Except Failure Recognized → Except Failure Recognized
  | .ok recognized => .ok ⟨recognized.span.moved offset, index + recognized.stop⟩
  | .error failure => .error ⟨failure.reason, index + failure.index, offset + failure.offset⟩

theorem recognize_behind (grammar : Recognizer) (entry : Entry) {source : Source TokenKind}
    {index : Nat} {cursor cursor' : Cursor TokenKind} (h : cursor.Outermost source)
    (h' : cursor'.Outermost (source.behind index)) (hindex : index ≤ source.last)
    (hcursor : cursor.index = index + cursor'.index) (hdepth : cursor.maxDepth = cursor'.maxDepth) :
    (grammar.recognize entry cursor).1 =
      shiftedAnswer index (grammar.recognize entry cursor').1 := by
  have hrest := h.forget grammar.definitions
  have hrest' := h'.forget grammar.definitions
  have hempty : (cursor.forgetFailure.forgetResults.state).Shifted index
      cursor'.forgetFailure.forgetResults.state := by
    constructor
    · rfl
    · intro scope rule i mode
      simp [Cursor.forgetResults]
  obtain ⟨o, s, t, hx, hy, hS⟩ := (grammar.rule entry).run_behind hindex
    (grammar.definitions.invoke_behind hindex cursor'.maxDepth cursor'.maxDepth) 0 {} cursor'.index
    _ _ hempty
  have hoffset : cursor.offset = cursor'.offset := by
    rw [Cursor.offset, Cursor.offset, h.source_eq, h'.source_eq, hcursor, Source.offset_behind]
  rw [recognize_eq, recognize_eq, entryParse, entryParse, hrest.parse_eq, hrest'.parse_eq]
  simp only [Cursor.forgetResults, Cursor.forgetFailure, hcursor, hdepth] at hx hy ⊢
  rw [hx, hy]
  cases o with
  | matched v j => rfl
  | failed f =>
      dsimp only [Outcome.shifted]
      rw [hS.furthest]
      cases t.furthest with
      | none => rfl
      | some best => rfl
  | aborted cause =>
      cases cause with
      | fatal f => rfl
      | undefinedRule name =>
          dsimp only [Outcome.shifted]
          rw [hoffset]
          rfl

theorem recognize_resumes {text rest : String} {index offset : Nat}
    (h : Tokenized.Resumes text rest index offset) (settings : Settings) (entry : Entry)
    {cursor cursor' : Cursor TokenKind}
    (hwhole : cursor.Outermost (Tokenized.ofSource text).tokens.toSource)
    (hrest : cursor'.Outermost (Tokenized.ofSource rest).tokens.toSource)
    (hcursor : cursor.index = index + cursor'.index) (hdepth : cursor.maxDepth = cursor'.maxDepth) :
    ((build settings).recognize entry cursor).1 =
      movedAnswer index offset ((build settings).recognize entry cursor').1 := by
  have hindex : index ≤ (Tokenized.ofSource text).tokens.toSource.last :=
    h.last_eq ▸ Nat.le_add_right _ _
  have hlast : ((Tokenized.ofSource text).tokens.toSource.behind index).last =
      (Tokenized.ofSource rest).tokens.toSource.last := by
    rw [Source.last_behind, h.last_eq, Nat.add_sub_cancel_left]
  -- a cursor on the tokens that are left, between the two texts
  let between : Cursor TokenKind :=
    { cursor' with source := (Tokenized.ofSource text).tokens.toSource.behind index }
  have hbetween : between.Outermost ((Tokenized.ofSource text).tokens.toSource.behind index) :=
    ⟨rfl, hrest.depth_eq, hrest.mode_eq, hlast ▸ hrest.index_le⟩
  have hanswer := (build settings).recognize_alike entry (Likeness.moved offset h.span_lexeme)
    hbetween hrest rfl rfl (h.alikeFor settings entry hrest.index_le)
  rw [(build settings).recognize_behind entry hwhole hbetween hindex hcursor hdepth]
  generalize ((build settings).recognize entry between).1 = x at hanswer ⊢
  generalize ((build settings).recognize entry cursor').1 = y at hanswer ⊢
  cases hanswer with
  | ok hvalue =>
      cases hvalue
      rfl
  | @error f g hfailure =>
      obtain ⟨reason, place, start⟩ := f
      obtain ⟨hreason, hplace, hstart⟩ := hfailure
      dsimp only at hreason hplace hstart
      rw [hreason, hplace, hstart]
      rfl

end Recognizer

def Verdict.moved (offset : Nat) : Verdict → Verdict
  | .matched span stop => .matched (span.moved offset) (offset + stop)
  | .rejected reason place => .rejected reason (offset + place)
  | .malformed fault => .malformed (fault.moved offset)

namespace Tokenized.Resumes

variable {text rest : String} {index offset : Nat}

theorem faultBehind? (h : Resumes text rest index offset) (reason : Reason) (place start : Nat) :
    (ofSource text).faultBehind? ⟨reason, index + place, offset + start⟩ =
      ((ofSource rest).faultBehind? ⟨reason, place, start⟩).map (·.moved offset) := by
  obtain ⟨before, -, hget⟩ := h.get? place
  rw [Tokenized.faultBehind?, Tokenized.faultBehind?]
  dsimp only
  rw [hget]
  cases (ofSource rest).tokens.get? place with
  | none => rfl
  | some token =>
      dsimp only [Option.map_some, behind]
      split
      · exact h.faultAt? token.span.start
      · rfl

theorem verdict (h : Resumes text rest index offset) (answer : Except Failure Recognized) :
    (ofSource text).verdict (Recognizer.movedAnswer index offset answer) =
      ((ofSource rest).verdict answer).moved offset := by
  cases answer with
  | ok recognized =>
      obtain ⟨span, stop⟩ := recognized
      obtain ⟨before, -, hget⟩ := h.get? stop
      dsimp only [Recognizer.movedAnswer, Tokenized.verdict, Verdict.moved]
      rw [hget]
      cases (ofSource rest).tokens.get? stop with
      | none => rfl
      | some token => rfl
  | error failure =>
      obtain ⟨reason, place, start⟩ := failure
      dsimp only [Recognizer.movedAnswer, Tokenized.verdict]
      rw [h.faultBehind?]
      cases (ofSource rest).faultBehind? ⟨reason, place, start⟩ with
      | none => rfl
      | some fault => rfl

end Tokenized.Resumes

namespace Recognizer

open Tokenized

/-- Scanning at an offset is scanning what is left of the text at the first token from there on. -/
theorem scanAt_eq_scan (settings : Settings) (text : String) (offset : Nat) :
    let start := startAtOrAfter text offset
    ∃ rest, Text.slice? text start text.utf8ByteSize = some rest ∧
      (build settings).scanAt text offset = ((build settings).scan rest).moved start := by
  intro start
  have hstart := get?_firstAtOrAfter text offset
  rw [scanAt]
  generalize (ofSource text).tokens.firstAtOrAfter offset = index at hstart ⊢
  obtain ⟨token, htoken, -⟩ := Option.map_eq_some_iff.1 hstart
  have hindex : index ≤ (progress text).tokens.size := by
    have hbound := (Array.getElem?_eq_some_iff.1 htoken).1
    rw [tokens_ofSource, Progress.closed, Array.size_push] at hbound
    exact Nat.le_of_lt_succ hbound
  obtain ⟨rest, place, hresumes, hplace⟩ := exists_resumes text hindex
  obtain rfl : place = start := Option.some.inj (hplace.symm.trans hstart)
  refine ⟨rest, hresumes.slice, ?_⟩
  have hcursor : min index (ofSource text).tokens.toSource.last =
      index + min 0 (ofSource rest).tokens.toSource.last := by
    rw [last_ofSource, Nat.min_eq_left hindex, Nat.zero_min, Nat.add_zero]
  rw [scan, scanAt, TokenList.firstAtOrAfter_zero, recognizeAt, recognizeAt,
    recognize_resumes hresumes settings .plain (cursor_moveTo_outermost _ _ index)
      (cursor_moveTo_outermost _ _ 0) hcursor rfl]
  exact hresumes.verdict _

end Recognizer
end AnnotationScan
