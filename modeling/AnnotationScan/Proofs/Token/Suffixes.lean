import AnnotationScan.Proofs.Token.Sources

/-!
# The text behind a token's start

The tokenizer takes up at the start of any token as if a text started there.  The pieces of a text
behind one of its pieces are those of the rest, and a piece that starts a token starts one on its
own, too; whether later pieces join with it depends on nothing in front of it.
-/

namespace AnnotationScan

/-- What is left of a text behind some of its pieces is cut into the other pieces. -/
theorem Piece.ofText_eq_append {cs : List Char} {front back : List Piece}
    (h : (ofText cs).toList = front ++ back) :
    ∃ rest, cs = front.flatMap (·.text) ++ rest ∧ (ofText rest).toList = back := by
  induction front generalizing cs with
  | nil => exact ⟨cs, rfl, h⟩
  | cons piece front ih =>
      cases cs with
      | nil => cases h
      | cons c cs =>
          have hprefix : (atStart (c :: cs)).text ++
              (c :: cs).drop (atStart (c :: cs)).text.length = c :: cs :=
            List.prefix_iff_eq_append.1 (List.take_prefix _ _)
          rw [ofText_cons, List.cons_append] at h
          obtain ⟨rfl, htail⟩ := List.cons.inj h
          obtain ⟨rest, hdrop, hrest⟩ := ih htail
          refine ⟨rest, ?_, hrest⟩
          rw [List.flatMap_cons, List.append_assoc, ← hdrop, hprefix]

theorem Span.Covers.moved {span : Span} {text part : List Char} (h : span.Covers text part)
    (front : List Char) : (span.moved (Text.byteLength front)).Covers (front ++ text) part := by
  obtain ⟨hpart, before, after, rfl, rfl⟩ := h
  exact ⟨hpart, front ++ before, after, by simp, by simp [Span.moved]⟩

def Fault.moved (fault : Fault) (offset : Nat) : Fault :=
  { fault with span := fault.span.moved offset }

namespace Tokenized

namespace Progress

theorem size_add (progress : Progress) (piece : Piece) :
    (progress.add piece).tokens.size = progress.tokens.size ∨
      (progress.add piece).tokens.size = progress.tokens.size + 1 := by
  obtain ⟨tokens, faults, offset, pending⟩ := progress
  obtain ⟨kind, text⟩ := piece
  cases kind with
  | token kind =>
      change (addToken tokens kind _ pending).size = _ ∨ (addToken tokens kind _ pending).size = _
      rcases addToken_cases tokens kind ⟨offset, offset + Piece.size ⟨.token kind, text⟩⟩
        pending with hpush | ⟨front, last, whole, rfl, -, hjoin⟩
      · exact .inr (by rw [hpush, Array.size_push])
      · exact .inl (by rw [hjoin, Array.size_push, Array.size_push])
  | fault kind => exact .inr (Array.size_push _)
  | blanks | lineFeed | lineComment | blockComment => exact .inl rfl

theorem add_eq_followedBy (base : Progress) {piece : Piece}
    (h : (base.add piece).tokens.size = base.tokens.size + 1) :
    base.add piece = base.followedBy (add {} piece) := by
  obtain ⟨tokens, faults, offset, pending⟩ := base
  obtain ⟨kind, text⟩ := piece
  cases kind with
  | token kind =>
      have hown : ∀ span, addToken #[] kind span .empty = #[⟨kind, span, .empty⟩] := fun _ => rfl
      change (addToken tokens kind _ pending).size = tokens.size + 1 at h
      rcases addToken_cases tokens kind ⟨offset, offset + Piece.size ⟨.token kind, text⟩⟩
        pending with hpush | ⟨front, last, whole, rfl, -, hjoin⟩
      · simp [add, followedBy, hpush, hown, behind, Span.moved, Trivia.union_empty]
      · rw [hjoin, Array.size_push, Array.size_push] at h
        omega
  | fault kind => simp [add, followedBy, behind, Span.moved, Trivia.union_empty]
  | blanks | lineFeed | lineComment | blockComment =>
      change tokens.size = tokens.size + 1 at h
      omega

theorem start_add {piece : Piece} (h : (add {} piece).tokens ≠ #[]) :
    (add {} piece).tokens[0]?.map (·.span.start) = some 0 := by
  obtain ⟨kind, text⟩ := piece
  cases kind with
  | token kind => rfl
  | fault kind => rfl
  | blanks | lineFeed | lineComment | blockComment => exact absurd rfl h

theorem exists_piece {pieces : List Piece} {progress : Progress} {k : Nat}
    (hk : progress.tokens.size ≤ k) (hlt : k < (progress.read pieces).tokens.size) :
    ∃ front piece back, pieces = front ++ piece :: back ∧
      (progress.read front).tokens.size = k ∧
      ((progress.read front).add piece).tokens.size = k + 1 := by
  induction pieces generalizing progress with
  | nil => exact absurd hlt (Nat.not_lt.2 hk)
  | cons piece pieces ih =>
      have hstep := progress.size_add piece
      by_cases hnext : (progress.add piece).tokens.size ≤ k
      · obtain ⟨front, piece', back, rfl, hsize, hgrown⟩ := ih hnext hlt
        exact ⟨piece :: front, piece', back, rfl, hsize, hgrown⟩
      · refine ⟨[], piece, pieces, rfl, ?_, ?_⟩
        · change progress.tokens.size = k
          omega
        · change (progress.add piece).tokens.size = k + 1
          omega

theorem start_push {tokens : Array Token} (h : tokens[0]?.map (·.span.start) = some 0)
    (token : Token) : (tokens.push token)[0]?.map (·.span.start) = some 0 := by
  have hpos : 0 < tokens.size := by
    refine Nat.pos_of_ne_zero fun hzero => ?_
    rw [Array.eq_empty_of_size_eq_zero hzero] at h
    cases h
  rw [Array.getElem?_push_lt hpos, ← Array.getElem?_eq_getElem hpos]
  exact h

theorem start_addToken {tokens : Array Token} (h : tokens[0]?.map (·.span.start) = some 0)
    (kind : TokenKind) (span : Span) (before : Trivia) :
    (addToken tokens kind span before)[0]?.map (·.span.start) = some 0 := by
  rcases addToken_cases tokens kind span before with hend | ⟨front, last, whole, rfl, -, hjoin⟩
  · rw [hend]
    exact start_push h _
  · rw [hjoin]
    rcases Nat.eq_zero_or_pos front.size with hzero | hpos
    · obtain rfl := Array.eq_empty_of_size_eq_zero hzero
      have hstart : last.span.start = 0 := by simpa using h
      simp [Span.merge, hstart]
    · rw [Array.getElem?_push_lt hpos] at h ⊢
      exact h

theorem start_read {progress : Progress} (pieces : List Piece)
    (h : progress.tokens[0]?.map (·.span.start) = some 0) :
    (progress.read pieces).tokens[0]?.map (·.span.start) = some 0 := by
  apply List.foldlRecOn (motive := fun progress : Progress =>
    progress.tokens[0]?.map (fun token : Token => token.span.start) = some 0) pieces add h
  rintro ⟨tokens, faults, offset, pending⟩ h ⟨kind, text⟩ -
  cases kind with
  | token kind => exact start_addToken h kind _ _
  | fault kind => exact start_push h _
  | blanks | lineFeed | lineComment | blockComment => exact h

theorem start_lt_of_mem_faults {progress : Progress} {pieces : List Piece}
    (hpieces : ∀ piece ∈ pieces, piece.text ≠ [])
    (h : ∀ fault ∈ progress.faults, fault.span.start < progress.offset) :
    ∀ fault ∈ (progress.read pieces).faults, fault.span.start < (progress.read pieces).offset := by
  apply List.foldlRecOn (motive := fun progress : Progress =>
    ∀ fault ∈ progress.faults, fault.span.start < progress.offset) pieces add h
  rintro ⟨tokens, faults, offset, pending⟩ h ⟨kind, text⟩ hpiece
  have hpos := Text.byteLength_pos (hpieces _ hpiece)
  have hmore : ∀ fault ∈ faults, fault.span.start < offset + Text.byteLength text :=
    fun fault hmem => Nat.lt_of_lt_of_le (h fault hmem) (Nat.le_add_right _ _)
  cases kind with
  | token kind => exact hmore
  | blanks | lineFeed | lineComment | blockComment => exact hmore
  | fault kind =>
      intro fault hmem
      rcases Array.mem_push.1 hmem with hmem | rfl
      · exact hmore fault hmem
      · exact Nat.lt_add_of_pos_right hpos

end Progress

/-- From the start of a token on a text is read as on its own, moved by what lies in front. -/
theorem exists_rest (text : String) {k : Nat} (hk : k ≤ (progress text).tokens.size) :
    ∃ (front : List Char) (rest : String) (base : Progress),
      text.toList = front ++ rest.toList ∧ base.offset = Text.byteLength front ∧
      base.tokens.size = k ∧ (∀ fault ∈ base.faults, fault.span.start < base.offset) ∧
      progress text = base.followedBy (progress rest) ∧
      (progress rest).closed[0]?.map (·.span.start) = some 0 := by
  have hnone : ∀ fault ∈ ({} : Progress).faults, fault.span.start < 0 := fun _ hmem => nomatch hmem
  have htexts := Piece.text_ne_nil text.toList
  rcases Nat.lt_or_eq_of_le hk with hlt | rfl
  · -- the rest starts with the piece that starts the token
    obtain ⟨front, piece, back, hpieces, hsize, hgrown⟩ :=
      Progress.exists_piece (Nat.zero_le k) hlt
    obtain ⟨rest, htext, hrest⟩ := Piece.ofText_eq_append hpieces
    have hfront : ∀ p ∈ front, p.text ≠ [] := fun p hp =>
      htexts p (hpieces ▸ List.mem_append_left _ hp)
    have hown : progress (.ofList rest) = (Progress.add {} piece).read back := by
      rw [progress, String.toList_ofList, hrest]
      rfl
    have hadd := Progress.add_eq_followedBy _ (hgrown.trans (congrArg (· + 1) hsize.symm))
    have hne : (Progress.add {} piece).tokens ≠ #[] := by
      intro hempty
      rw [hadd, Progress.followedBy, hempty] at hgrown
      simp [hsize] at hgrown
    refine ⟨front.flatMap (·.text), .ofList rest, Progress.read {} front, ?_, ?_, hsize,
      Progress.start_lt_of_mem_faults hfront hnone, ?_, ?_⟩
    · rw [String.toList_ofList]
      exact htext
    · have hreads := Progress.reads_nil.read hfront
      exact hreads.offset_eq
    · rw [hown, ← Progress.read_followedBy _ _ fun hempty => absurd hempty hne, ← hadd, progress,
        hpieces, Progress.read, List.foldl_append]
      rfl
    · rw [hown]
      exact Progress.start_push (Progress.start_read _ (Progress.start_add hne)) _
  · -- nothing is left behind the mark of the end
    refine ⟨text.toList, "", progress text, by simp, ?_, rfl, ?_, ?_, rfl⟩
    · rw [offset_progress, utf8ByteSize_eq]
    · exact Progress.start_lt_of_mem_faults htexts hnone
    · exact (Progress.followedBy_start _).symm

/-- At one of its tokens a text resumes as `rest`: that is what is left of it `offset` bytes on, and
the tokens and faults there are those of `rest`, moved, except for the trivia in front of the first
token. -/
structure Resumes (text rest : String) (index offset : Nat) : Prop where
  slice : Text.slice? text offset text.utf8ByteSize = some rest
  size_eq : text.utf8ByteSize = offset + rest.utf8ByteSize
  last_eq : (ofSource text).tokens.toSource.last = index + (ofSource rest).tokens.toSource.last
  get? : ∀ i, ∃ before, (0 < i → before = .empty) ∧ (ofSource text).tokens.get? (index + i) =
    ((ofSource rest).tokens.get? i).map (behind offset before)
  textAt : ∀ token ∈ (progress rest).tokens, (ofSource text).tokens.textAt (token.span.moved offset) =
    (ofSource rest).tokens.textAt token.span
  faultAt? : ∀ place, (ofSource text).faultAt? (offset + place) =
    ((ofSource rest).faultAt? place).map (·.moved offset)

theorem slice?_rest {text rest : String} {front : List Char} (h : text.toList = front ++ rest.toList) :
    Text.slice? text (Text.byteLength front) text.utf8ByteSize = some rest := by
  have hslice := Text.slice?_append front rest.toList []
  rw [List.append_nil, ← h, String.ofList_toList, String.ofList_toList, ← utf8ByteSize_eq] at hslice
  exact hslice

theorem faults_ofSource (text : String) : (ofSource text).faults = (progress text).faults := by
  rw [ofSource_eq]
  rfl

theorem exists_resumes (text : String) {index : Nat} (hindex : index ≤ (progress text).tokens.size) :
    ∃ rest offset, Resumes text rest index offset ∧
      ((ofSource text).tokens.get? index).map (·.span.start) = some offset := by
  obtain ⟨front, rest, base, htext, hoffset, hsize, hfaults, hread, hstart⟩ :=
    exists_rest text hindex
  have hclosed := Progress.closed_followedBy base (progress rest)
  rw [← hread, hoffset] at hclosed
  have hget : ∀ i, ∃ before : Trivia, (0 < i → before = .empty) ∧
      (ofSource text).tokens.get? (index + i) =
        ((ofSource rest).tokens.get? i).map (behind (Text.byteLength front) before) := by
    intro i
    refine ⟨if i = 0 then base.pending else .empty, fun hi => if_neg (Nat.ne_of_gt hi), ?_⟩
    rw [tokens_ofSource, tokens_ofSource]
    dsimp only [TokenList.get?]
    rw [hclosed, Array.getElem?_append_right (by omega), Array.getElem?_mapIdx, hsize,
      Nat.add_sub_cancel_left]
  refine ⟨rest, Text.byteLength front, ⟨slice?_rest htext, ?_, ?_, hget, ?_, ?_⟩, ?_⟩
  · rw [utf8ByteSize_eq, htext, Text.byteLength_append, utf8ByteSize_eq]
  · rw [last_ofSource, last_ofSource, hread, Progress.followedBy, Array.size_append,
      Array.size_mapIdx, hsize]
  · intro token htoken
    obtain ⟨part, hpart⟩ := (laid_progress rest).covers token (Array.mem_toList_iff.2 htoken)
    have hwhole := TokenList.textAt_of_covers (hpart.moved front) (progress text).closed
    have hown := TokenList.textAt_of_covers hpart (progress rest).closed
    rw [← htext, String.ofList_toList] at hwhole
    rw [String.ofList_toList] at hown
    rw [tokens_ofSource, tokens_ofSource, hwhole, hown]
  · intro place
    -- the faults in front of the rest start too early to be found
    have hnone : base.faults.find? (·.span.start == Text.byteLength front + place) = none := by
      rw [Array.find?_eq_none]
      intro fault hmem
      have hlt := hfaults fault hmem
      rw [beq_iff_eq]
      omega
    have hplace : ∀ start : Nat, (Text.byteLength front + start == Text.byteLength front + place) =
        (start == place) := by
      intro start
      rw [Bool.eq_iff_iff, beq_iff_eq, beq_iff_eq, Nat.add_left_cancel_iff]
    rw [faultAt?, faultAt?, faults_ofSource, faults_ofSource, hread, Progress.followedBy,
      Array.find?_append, hnone, Option.none_or, Array.find?_map, hoffset]
    simp only [Function.comp_def, Span.moved, hplace]
    rfl
  · obtain ⟨first, hfirst, hzero⟩ := Option.map_eq_some_iff.1 hstart
    obtain ⟨before, -, hget⟩ := hget 0
    rw [Nat.add_zero, tokens_ofSource rest] at hget
    rw [hget, TokenList.get?, hfirst]
    exact congrArg (fun start => some (Text.byteLength front + start)) hzero

end Tokenized
end AnnotationScan
