import AnnotationScan.Proofs.Tiling
import AnnotationScan.Proofs.Token.Alone

/-!
# Tokens written down again

Tokens taken from any texts are written in a row, with blanks and line feeds between them.  The new
text has no faults and reads as the same tokens, except that a name which is spelled like a hard
keyword becomes the keyword.
-/

namespace AnnotationScan

def TokenList.readings (list : TokenList) : List (TokenKind × String) :=
  list.tokens.toList.map fun token => (token.kind, list.textAt token.span)

namespace Tokenized

/-- A text is read as one token that fills it. -/
structure ReadsAs (text : String) (kind : TokenKind) : Prop where
  complete : Piece.Complete (Piece.ofText text.toList).toList
  tokens : (progress text).tokens = #[⟨kind, ⟨0, text.utf8ByteSize⟩, .empty⟩]
  faults : (progress text).faults = #[]

namespace ReadsAs

variable {text : String} {kind : TokenKind}

theorem complete_of_pieces (pieces : List Piece) {last : TokenKind} {text : List Char}
    (hpieces : ∀ piece ∈ pieces, ∃ kind, piece.kind = .token kind) :
    Piece.Complete (pieces ++ [⟨.token last, text⟩]) := by
  constructor
  · intro piece hpiece kind hkind
    rcases List.mem_append.1 hpiece with hmem | hmem
    · obtain ⟨token, htoken⟩ := hpieces piece hmem
      rw [hkind] at htoken
      cases htoken
    · obtain rfl := List.mem_singleton.1 hmem
      cases hkind
  · intro piece hpiece
    rw [List.getLast?_concat] at hpiece
    obtain rfl := Option.some.inj hpiece
    exact ⟨last, rfl⟩

theorem of_piece (h : (Piece.ofText text.toList).toList = [⟨.token kind, text.toList⟩]) :
    ReadsAs text kind := by
  have hsize : Piece.size ⟨.token kind, text.toList⟩ = text.utf8ByteSize :=
    (utf8ByteSize_eq text).symm
  constructor
  · rw [h]
    exact complete_of_pieces [] fun _ hmem => nomatch hmem
  · rw [progress, h, ← hsize]
    simp [Progress.read, Progress.add, addToken]
  · rw [progress, h]
    rfl

theorem of_pair {first second : List Char} {a b : TokenKind}
    (h : (Piece.ofText text.toList).toList = [⟨.token a, first⟩, ⟨.token b, second⟩])
    (hjoined : a.joined? b = some kind) : ReadsAs text kind := by
  have hsize : text.utf8ByteSize = Text.byteLength first + Text.byteLength second := by
    rw [utf8ByteSize_eq, ← Piece.text_ofText text.toList, h]
    simp
  constructor
  · rw [h]
    exact complete_of_pieces [⟨.token a, first⟩] (by simp)
  · rw [progress, h, hsize]
    simp [Progress.read, Progress.add, addToken, hjoined, Piece.size, Span.merge]
  · rw [progress, h]
    rfl

/-- The text of a token is read as one token where it stands alone. -/
theorem of_makes {cs : List Char} {own front back : List Piece} (h : Makes kind own)
    (hkind : kind ≠ .malformed) (hpieces : (Piece.ofText cs).toList = front ++ (own ++ back)) :
    ReadsAs (.ofList (own.flatMap (·.text))) (kind.alone (.ofList (own.flatMap (·.text)))) := by
  cases h with
  | token _ text =>
      have hne := Piece.text_ne_nil cs ⟨.token kind, text⟩ (by simp [hpieces])
      have halone := Piece.atStart_alone (Piece.atStart_of_mem hpieces)
      rw [List.flatMap_singleton]
      apply of_piece
      rw [String.toList_ofList]
      exact Piece.ofText_of_atStart hne halone
  | @joined a b _ hjoined first second =>
      have hpair : (Piece.ofText (String.ofList (first ++ second)).toList).toList =
          [⟨.token a, first⟩, ⟨.token b, second⟩] := by
        rw [String.toList_ofList]
        obtain ⟨rfl, rfl⟩ := Makes.spellings hjoined hpieces
        rcases TokenKind.joined?_cases hjoined with ⟨rfl, rfl, -⟩ | ⟨rfl, rfl, -⟩ | ⟨rfl, rfl, -⟩
        all_goals decide
      have hidentifier : kind ≠ .identifier := by
        rintro rfl
        have hspelling := Makes.pair hjoined hpieces
        cases hspelling
      rw [TokenKind.alone_of_ne hidentifier, List.flatMap_cons, List.flatMap_singleton]
      exact of_pair hpair hjoined
  | fault => exact absurd rfl hkind

end ReadsAs

/-- A token of some text that is neither malformed nor the mark of the end, with its text. -/
structure Specimen where
  kind : TokenKind
  text : String
  taken : ∃ source i token, (ofSource source).tokens.get? i = some token ∧ token.kind = kind ∧
    (ofSource source).tokens.text i = text
  sound : kind ≠ .malformed ∧ kind ≠ .endOfInput

theorem Specimen.readsAs (specimen : Specimen) :
    ReadsAs specimen.text (specimen.kind.alone specimen.text) := by
  obtain ⟨kind, text, ⟨source, i, token, htoken, rfl, rfl⟩, hmalformed, hend⟩ := specimen
  obtain ⟨front, gap, own, back, hamong, -, hmakes⟩ := exists_among htoken
  have hpieces := hamong.pieces_eq
  rw [← List.append_assoc] at hpieces
  dsimp only
  rw [text_ofSource htoken hamong]
  exact .of_makes (hmakes.resolve_right fun hnot => hend hnot.1) hmalformed hpieces

/-- Blanks and line feeds between two tokens. -/
structure Separator where
  text : String
  ne_empty : text ≠ ""
  blank : ∀ c ∈ text.toList, c ∈ Form.gaps

def written (gap : Nat → Separator) : List Specimen → String
  | [] => ""
  | [specimen] => specimen.text
  | specimen :: next :: rest =>
    specimen.text ++ (gap 0).text ++ written (fun i => gap (i + 1)) (next :: rest)

theorem textAt_moved {more : String} {i : Nat} {token : Token}
    (htoken : (ofSource more).tokens.get? i = some token) (front : List Char) (tokens : Array Token) :
    (TokenList.mk (.ofList (front ++ more.toList)) tokens).textAt
        (token.span.moved (Text.byteLength front)) = (ofSource more).tokens.textAt token.span := by
  obtain ⟨_, _, own, _, hamong, -⟩ := exists_among htoken
  obtain ⟨before, after, htext, hspan⟩ := hamong.exists_text
  have hmoved := Text.slice?_append (front ++ before) (own.flatMap (·.text)) after
  rw [TokenList.textAt, TokenList.textAt, source_ofSource, hamong.slice_own, htext, hspan,
    ← List.append_assoc, ← List.append_assoc]
  simp only [Span.moved]
  rw [← Text.byteLength_append, ← Text.byteLength_append, ← List.append_assoc, hmoved]

theorem readings_moved (front : List Char) (more : String) (tokens : Array Token)
    (before : Nat → Trivia) :
    (((ofSource more).tokens.tokens.mapIdx fun i =>
        behind (Text.byteLength front) (before i)).toList.map fun token => (token.kind,
          (TokenList.mk (.ofList (front ++ more.toList)) tokens).textAt token.span)) =
      (ofSource more).tokens.readings := by
  rw [TokenList.readings, Array.toList_mapIdx]
  refine List.ext_getElem (by simp) fun i _ hi => ?_
  rw [List.length_map, Array.length_toList] at hi
  have htoken : (ofSource more).tokens.get? i = some (ofSource more).tokens.tokens[i] :=
    Array.getElem?_eq_getElem hi
  rw [List.getElem_map, List.getElem_mapIdx, List.getElem_map, Array.getElem_toList]
  exact congrArg (Prod.mk _) (textAt_moved htoken front tokens)

theorem textAt_beginning (text : String) (rest : List Char) (tokens : Array Token) :
    (TokenList.mk (.ofList (text.toList ++ rest)) tokens).textAt ⟨0, text.utf8ByteSize⟩ = text := by
  have hslice := Text.slice?_append [] text.toList rest
  rw [List.nil_append, ← utf8ByteSize_eq, String.ofList_toList, Text.byteLength_nil] at hslice
  rw [TokenList.textAt, hslice, Option.getD_some]

theorem Separator.all_isGap (gap : Separator) : gap.text.toList.all Form.isGap = true :=
  List.all_eq_true.2 fun c hc => List.contains_iff_mem.2 (gap.blank c hc)

/-- A token that is written in front of a text is read in front of its tokens. -/
theorem ReadsAs.readings_append {text : String} {kind : TokenKind} (h : ReadsAs text kind)
    (gap : Separator) (more : String) :
    (ofSource (text ++ gap.text ++ more)).tokens.readings =
      (kind, text) :: (ofSource more).tokens.readings := by
  obtain ⟨before, -, htokens⟩ := tokens_append h.complete gap.ne_empty gap.all_isGap more
  have hclosed : (progress more).closed = (ofSource more).tokens.tokens := by
    rw [tokens_ofSource]
  have hwhole : text.toList ++ (gap.text.toList ++ more.toList) =
      (text ++ gap.text).toList ++ more.toList := by
    rw [String.toList_append, List.append_assoc]
  have hoffset : text.utf8ByteSize + gap.text.utf8ByteSize =
      Text.byteLength (text ++ gap.text).toList := by
    rw [String.toList_append, Text.byteLength_append, utf8ByteSize_eq, utf8ByteSize_eq]
  rw [htokens, h.tokens, hclosed, hoffset, TokenList.readings, Array.toList_append]
  simp only [List.map_cons, List.cons_append, List.nil_append]
  rw [textAt_beginning, hwhole, readings_moved _ more _ fun i => if i = 0 then before else .empty]

theorem ReadsAs.faults_append {text : String} {kind : TokenKind} (h : ReadsAs text kind)
    (gap : Separator) {more : String} (hmore : (ofSource more).faults = #[]) :
    (ofSource (text ++ gap.text ++ more)).faults = #[] := by
  rw [faults_ofSource] at hmore ⊢
  rw [progress_append h.complete gap.ne_empty gap.all_isGap, Progress.followedBy]
  dsimp only
  rw [Progress.faults_past, h.faults, hmore, Array.map_empty, Array.append_empty]

theorem ReadsAs.readings_alone {text : String} {kind : TokenKind} (h : ReadsAs text kind) :
    (ofSource text).tokens.readings = [(kind, text), (.endOfInput, "")] := by
  have hown := textAt_beginning text [] (progress text).closed
  have hend := Text.slice?_append text.toList [] []
  rw [List.append_nil, String.ofList_toList] at hown
  rw [List.append_nil, List.append_nil, String.ofList_toList, ← utf8ByteSize_eq] at hend
  have hpoint : (TokenList.mk text (progress text).closed).textAt (Span.point text.utf8ByteSize) =
      "" := by
    rw [TokenList.textAt, Span.point, hend]
    rfl
  rw [tokens_ofSource, TokenList.readings]
  dsimp only
  generalize htokens : (TokenList.mk text (progress text).closed).textAt = textAt at hown hpoint ⊢
  rw [Progress.closed, h.tokens, offset_progress, Array.toList_push]
  simp only [List.map_cons, List.cons_append, List.nil_append, List.map_nil]
  rw [hown, hpoint]

/-- Tokens that are written with separators between them are read again, and nothing else is: each of
them has its text, and its kind unless it is a name that becomes a keyword. -/
theorem readings_written (gap : Nat → Separator) (specimens : List Specimen) :
    (ofSource (written gap specimens)).faults = #[] ∧
      (ofSource (written gap specimens)).tokens.readings =
        specimens.map (fun specimen => (specimen.kind.alone specimen.text, specimen.text)) ++
          [(.endOfInput, "")] := by
  induction specimens generalizing gap with
  | nil =>
      rw [written, List.map_nil]
      constructor <;> decide
  | cons specimen specimens ih =>
      have hreads := specimen.readsAs
      cases specimens with
      | nil =>
          constructor
          · rw [written, faults_ofSource]
            exact hreads.faults
          · rw [written]
            exact hreads.readings_alone
      | cons next rest =>
          obtain ⟨hfaults, hreadings⟩ := ih fun i => gap (i + 1)
          constructor
          · exact hreads.faults_append (gap 0) hfaults
          · rw [written, hreads.readings_append, hreadings]
            rfl

/-- The name `object` in front of a vowel sign, whose first byte may begin a letter. -/
def markedObject : Specimen where
  kind := .identifier
  text := "object"
  taken := ⟨"object\u064c", 0, ⟨.identifier, ⟨0, 6⟩, .empty⟩, by decide +kernel, rfl, by decide +kernel⟩
  sound := by decide

/-- On its own the name is a keyword, so that not all tokens are read again as they were. -/
theorem not_forall_readings_written :
    ¬∀ (gap : Nat → Separator) (specimens : List Specimen),
      (ofSource (written gap specimens)).faults = #[] ∧
        (ofSource (written gap specimens)).tokens.readings =
          specimens.map (fun specimen => (specimen.kind, specimen.text)) ++ [(.endOfInput, "")] := by
  intro h
  have hreadings := (h (fun _ => ⟨" ", by simp, by simp [Form.gaps]⟩) [markedObject]).2
  revert hreadings
  decide +kernel

end Tokenized
end AnnotationScan
