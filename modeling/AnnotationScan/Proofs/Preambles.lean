import AnnotationScan.Proofs.Independence

/-!
# Annotations in front of a script

The annotations of the file are taken one after the other on one cursor.  That comes to the same as
to scan for one of them, then to cut the text behind it and to start again with what is left.
-/

namespace AnnotationScan

open Peg

/-- What is found in front of a script that goes on behind some annotations, `offset` bytes on. -/
def Preamble.behind (found : Array Span) (offset : Nat) :
    Except Fault Preamble → Except Fault Preamble
  | .ok preamble =>
    .ok ⟨found ++ preamble.annotations.map (·.moved offset), offset + preamble.bodyOffset⟩
  | .error fault => .error (fault.moved offset)

namespace Recognizer

variable {settings : Settings} {source : Source TokenKind} {cursor : Cursor TokenKind}
  {recognized : Recognized}

theorem index_recognize {grammar : Recognizer} {entry : Entry}
    (hok : (grammar.recognize entry cursor).1 = .ok recognized) :
    (grammar.recognize entry cursor).2.index = recognized.stop := by
  rw [recognize_eq] at hok ⊢
  dsimp only at hok ⊢
  rw [entryParse_index]
  generalize (grammar.entryParse entry cursor).1 = o at hok ⊢
  cases o with
  | matched span stop =>
      obtain rfl := Except.ok.inj hok
      rfl
  | failed failure => cases hok
  | aborted cause => cases cause <;> cases hok

theorem lt_of_recognize_file (hsource : source.Marked) (h : cursor.Outermost source)
    (hok : ((build settings).recognize .file cursor).1 = .ok recognized) :
    cursor.index < recognized.stop ∧ recognized.stop ≤ source.last := by
  obtain ⟨d, hd⟩ := derives_of_recognize h hok
  refine ⟨?_, (hd.bounds h.index_le _ rfl).2⟩
  exact Grammar.lt_of_takes hsource hd h.index_le (Grammar.takes_entry settings .file) _ rfl

theorem preambleFrom_of_ok {grammar : Recognizer} {tokenized : Tokenized} {rounds : Nat}
    {found : Array Span} (hok : (grammar.recognize .file cursor).1 = .ok recognized) :
    grammar.preambleFrom tokenized (rounds + 1) cursor found =
      grammar.preambleFrom tokenized rounds (grammar.recognize .file cursor).2
        (found.push recognized.span) := by
  rw [preambleFrom]
  generalize grammar.recognize .file cursor = x at hok ⊢
  obtain ⟨answer, after⟩ := x
  obtain rfl : answer = .ok recognized := hok
  rfl

/-- The fault that ends the annotations of the file, if the grammar fails behind the first token of
an attempt. -/
def faultBehindFirst? (tokenized : Tokenized) (index : Nat) (failure : Failure) : Option Fault :=
  if index < failure.index then tokenized.faultBehind? failure else none

theorem preambleFrom_of_error {grammar : Recognizer} {tokenized : Tokenized} {rounds : Nat}
    {found : Array Span} {failure : Failure}
    (herror : (grammar.recognize .file cursor).1 = .error failure) :
    grammar.preambleFrom tokenized (rounds + 1) cursor found =
      (faultBehindFirst? tokenized cursor.index failure).elim (.ok ⟨found, cursor.offset⟩)
        .error := by
  rw [preambleFrom, faultBehindFirst?]
  generalize grammar.recognize .file cursor = x at herror ⊢
  obtain ⟨answer, after⟩ := x
  obtain rfl : answer = .error failure := herror
  dsimp only
  generalize (if cursor.index < failure.index then _ else none) = fault?
  cases fault? with
  | none => rfl
  | some fault => rfl

open Tokenized

variable {text rest : String} {index offset : Nat}

theorem faultBehindFirst?_resumes (h : Resumes text rest index offset) (start : Nat)
    (reason : Reason) (place byte : Nat) :
    faultBehindFirst? (ofSource text) (index + start) ⟨reason, index + place, offset + byte⟩ =
      (faultBehindFirst? (ofSource rest) start ⟨reason, place, byte⟩).map (·.moved offset) := by
  rw [faultBehindFirst?, faultBehindFirst?, h.faultBehind?]
  simp only [Nat.add_lt_add_iff_left]
  split <;> rfl

theorem offset_resumes (h : Resumes text rest index offset) {cursor cursor' : Cursor TokenKind}
    (hwhole : cursor.Outermost (ofSource text).tokens.toSource)
    (hrest : cursor'.Outermost (ofSource rest).tokens.toSource)
    (hcursor : cursor.index = index + cursor'.index) : cursor.offset = offset + cursor'.offset := by
  rw [Cursor.offset, Cursor.offset, hwhole.source_eq, hrest.source_eq, hcursor]
  exact congrArg Span.start (h.lexeme hrest.index_le).2.1

/-- Behind a first part of the annotations the others are taken as in the rest of the text, if there
are rounds enough. -/
theorem preambleFrom_resumes (h : Resumes text rest index offset) (settings : Settings)
    (found : Array Span) {found' : Array Span} {rounds rounds' : Nat}
    {cursor cursor' : Cursor TokenKind} (hwhole : cursor.Outermost (ofSource text).tokens.toSource)
    (hrest : cursor'.Outermost (ofSource rest).tokens.toSource)
    (hcursor : cursor.index = index + cursor'.index) (hdepth : cursor.maxDepth = cursor'.maxDepth)
    (hrounds : (ofSource text).tokens.toSource.last - cursor.index < rounds)
    (hrounds' : (ofSource rest).tokens.toSource.last - cursor'.index < rounds') :
    (build settings).preambleFrom (ofSource text) rounds cursor
        (found ++ found'.map (·.moved offset)) =
      Preamble.behind found offset
        ((build settings).preambleFrom (ofSource rest) rounds' cursor' found') := by
  induction rounds generalizing rounds' cursor cursor' found' with
  | zero => omega
  | succ rounds ih =>
      obtain ⟨rounds', rfl⟩ : ∃ n, rounds' = n + 1 := ⟨rounds' - 1, by omega⟩
      have hanswer := recognize_resumes h settings .file hwhole hrest hcursor hdepth
      cases hx : ((build settings).recognize .file cursor').1 with
      | ok recognized =>
          rw [hx] at hanswer
          -- both cursors move by the same number of tokens, and by one at least
          obtain ⟨hlt, hle⟩ := lt_of_recognize_file (marked_ofSource rest) hrest hx
          have hlast := h.last_eq
          have hindex := index_recognize hanswer
          have hindex' := index_recognize hx
          dsimp only at hindex
          rw [preambleFrom_of_ok hanswer, preambleFrom_of_ok hx, ← Array.append_push,
            ← Array.map_push]
          apply ih ((build settings).recognize_outermost .file hwhole)
            ((build settings).recognize_outermost .file hrest)
          · rw [hindex, hindex']
          · exact hdepth
          · omega
          · omega
      | error failure =>
          rw [hx] at hanswer
          rw [preambleFrom_of_error hanswer, preambleFrom_of_error hx, hcursor,
            faultBehindFirst?_resumes h, offset_resumes h hwhole hrest hcursor]
          generalize faultBehindFirst? (ofSource rest) cursor'.index failure = fault?
          cases fault? with
          | none => rfl
          | some fault => rfl

theorem exists_first (grammar : Recognizer) (text : String) : ∃ token,
    (ofSource text).tokens.get? 0 = some token ∧ token.span.start = startAtOrAfter text 0 ∧
      (grammar.cursor (ofSource text).tokens).offset = startAtOrAfter text 0 := by
  have hstart := get?_firstAtOrAfter text 0
  rw [TokenList.firstAtOrAfter_zero] at hstart
  obtain ⟨token, htoken, hfirst⟩ := Option.map_eq_some_iff.1 hstart
  refine ⟨token, htoken, hfirst, ?_⟩
  have hlexeme := TokenList.lexeme_toSource (ofSource text).tokens htoken
  exact (congrArg (·.span.start) hlexeme).trans hfirst

theorem lt_start_of_faultBehind? {fault : Fault} {failure : Failure}
    (h : (ofSource text).faultBehind? failure = some fault) :
    0 < failure.index ↔ startAtOrAfter text 0 < fault.span.start := by
  obtain ⟨first, hfirst, hstart, -⟩ := exists_first (build {}) text
  unfold faultBehind? at h
  split at h
  case h_1 token htoken =>
    split at h
    case isTrue =>
      have hfound : fault.span.start = token.span.start := by
        simpa using Array.find?_some h
      rw [hfound, ← hstart]
      rcases Nat.eq_zero_or_pos failure.index with hzero | hpos
      · rw [hzero, hfirst] at htoken
        obtain rfl := Option.some.inj htoken
        simp [hzero]
      · exact iff_of_true hpos (start_lt hpos hfirst htoken)
    case isFalse => cases h
  case h_2 => cases h

/-- Where an annotation of the file is recognized, the text resumes at the token behind it, and the
other annotations are those of the rest. -/
theorem exists_resumes_of_ok {settings : Settings} (hok : ((build settings).recognize .file
      ((build settings).cursor (ofSource text).tokens)).1 = .ok recognized) :
    ∃ rest stop, Resumes text rest recognized.stop stop ∧ startAtOrAfter text 0 < stop ∧
      (build settings).scanFile text = .matched recognized.span stop ∧
      (build settings).preamble text =
        Preamble.behind #[recognized.span] stop ((build settings).preamble rest) := by
  have hwhole := cursor_outermost (build settings) (ofSource text).tokens
  obtain ⟨hlt, hle⟩ := lt_of_recognize_file (marked_ofSource text) hwhole hok
  rw [last_ofSource] at hle
  obtain ⟨rest, stop, hresumes, hstop⟩ := exists_resumes text hle
  obtain ⟨first, hfirst, hstart, -⟩ := exists_first (build settings) text
  obtain ⟨next, hnext, hnextStart⟩ := Option.map_eq_some_iff.1 hstop
  refine ⟨rest, stop, hresumes, ?_, ?_, ?_⟩
  · have hordered := start_lt hlt hfirst hnext
    rwa [hstart, hnextStart] at hordered
  · rw [scanFile, hok, verdict, hnext, ← hnextStart]
    rfl
  · have hindex := index_recognize hok
    have hpush : (#[] : Array Span).push recognized.span =
        #[recognized.span] ++ (#[] : Array Span).map (·.moved stop) := by simp
    rw [preamble, preambleFrom_of_ok hok, preamble, hpush]
    -- each text has more rounds than tokens, and the first text has used up one of them
    apply preambleFrom_resumes hresumes settings _ (recognize_outermost _ .file hwhole)
      (cursor_outermost _ _) hindex rfl
    · rw [last_ofSource, size_ofSource]
      omega
    · rw [last_ofSource, size_ofSource]
      omega

/-- The annotations of the file in front of a script are those that one finds who scans for one of
them, cuts the text behind it and starts again. -/
theorem preamble_eq_scanFile (settings : Settings) (text : String) :
    let grammar := build settings
    let first := startAtOrAfter text 0
    match grammar.scanFile text with
    | .matched span stop =>
      first < stop ∧ ∃ rest, Text.slice? text stop text.utf8ByteSize = some rest ∧
        rest.utf8ByteSize < text.utf8ByteSize ∧
        grammar.preamble text = Preamble.behind #[span] stop (grammar.preamble rest)
    | .malformed fault =>
      grammar.preamble text =
        if first < fault.span.start then .error fault else .ok ⟨#[], first⟩
    | .rejected _ _ => grammar.preamble text = .ok ⟨#[], first⟩ := by
  intro grammar first
  cases hx : (grammar.recognize .file (grammar.cursor (ofSource text).tokens)).1 with
  | ok recognized =>
      obtain ⟨rest, stop, hresumes, hbehind, hscan, hpreamble⟩ := exists_resumes_of_ok hx
      have hsize := hresumes.size_eq
      rw [hscan]
      exact ⟨hbehind, rest, hresumes.slice, by omega, hpreamble⟩
  | error failure =>
      obtain ⟨-, -, -, hoffset⟩ := exists_first grammar text
      have hpreamble : grammar.preamble text = _ := preambleFrom_of_error hx
      rw [hpreamble, hoffset, scanFile, hx, verdict, faultBehindFirst?]
      cases hfault : (ofSource text).faultBehind? failure with
      | none => simp [first]
      | some fault =>
          -- both conditions say that the parse went beyond the first token
          have hbehind : (grammar.cursor (ofSource text).tokens).index < failure.index ↔
              first < fault.span.start := lt_start_of_faultBehind? hfault
          dsimp only
          simp only [hbehind]
          split <;> rfl

example : (build {}).preamble "@file:A\n@file:B x" = .ok ⟨#[⟨0, 7⟩, ⟨8, 15⟩], 16⟩ := by
  decide +kernel

end Recognizer
end AnnotationScan
