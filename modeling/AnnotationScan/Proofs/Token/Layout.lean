import AnnotationScan.Proofs.Token.Reading

/-!
# Where tokens lie

The tokens of a text lie behind one another, each over a part of the text.  A fault leaves a
malformed token, and behind the last token there is nothing but blanks and comments.
-/

namespace AnnotationScan

/-- A span covers a part of a text that is not empty. -/
def Span.Covers (span : Span) (text part : List Char) : Prop :=
  part ≠ [] ∧ ∃ before after, text = before ++ part ++ after ∧
    span = ⟨Text.byteLength before, Text.byteLength (before ++ part)⟩

theorem Text.byteLength_pos {cs : List Char} (h : cs ≠ []) : 0 < byteLength cs := by
  cases cs with
  | nil => exact absurd rfl h
  | cons c cs =>
      have hc := c.utf8Size_pos
      rw [byteLength_cons]
      omega

namespace Span.Covers

variable {span : Span} {text part : List Char}

theorem bounds (h : span.Covers text part) :
    span.start < span.stop ∧ span.stop ≤ Text.byteLength text := by
  obtain ⟨hpart, before, after, rfl, rfl⟩ := h
  have hpos := Text.byteLength_pos hpart
  simp only [Text.byteLength_append]
  omega

theorem append (h : span.Covers text part) (more : List Char) :
    span.Covers (text ++ more) part := by
  obtain ⟨hpart, before, after, rfl, rfl⟩ := h
  exact ⟨hpart, before, after ++ more, by simp, rfl⟩

theorem merge_last (h : span.Covers text part) (more : List Char) :
    ∃ part', (span.merge ⟨Text.byteLength text, Text.byteLength (text ++ more)⟩).Covers
      (text ++ more) part' := by
  obtain ⟨hpart, before, after, rfl, rfl⟩ := h
  refine ⟨part ++ after ++ more, by simp [hpart], before, [], by simp, ?_⟩
  simp only [merge, Text.byteLength_append, Span.mk.injEq]
  omega

end Span.Covers

namespace Tokenized

/-- Tokens of a text: each of them over a part of it, one behind the other. -/
structure Laid (text : List Char) (tokens : List Token) : Prop where
  covers : ∀ token ∈ tokens, ∃ part, token.span.Covers text part
  ordered : tokens.Pairwise fun a b => a.span.stop ≤ b.span.start

namespace Laid

variable {text more : List Char} {tokens : List Token} {last : Token}

theorem append (h : Laid text tokens) (more : List Char) : Laid (text ++ more) tokens := by
  refine ⟨fun token htoken => ?_, h.ordered⟩
  obtain ⟨part, hpart⟩ := h.covers token htoken
  exact ⟨part, hpart.append more⟩

theorem snoc (h : Laid text tokens) (hcovers : ∃ part, last.span.Covers text part)
    (hordered : ∀ token ∈ tokens, token.span.stop ≤ last.span.start) :
    Laid text (tokens ++ [last]) := by
  refine ⟨fun token htoken => ?_, List.pairwise_append.2
    ⟨h.ordered, List.pairwise_singleton _ _, fun a ha b hb => ?_⟩⟩
  · rcases List.mem_append.1 htoken with htoken | htoken
    · exact h.covers token htoken
    · exact List.mem_singleton.1 htoken ▸ hcovers
  · exact List.mem_singleton.1 hb ▸ hordered a ha

theorem init (h : Laid text (tokens ++ [last])) :
    Laid text tokens ∧ (∃ part, last.span.Covers text part) ∧
      ∀ token ∈ tokens, token.span.stop ≤ last.span.start := by
  obtain ⟨hpairs, -, hordered⟩ := List.pairwise_append.1 h.ordered
  exact ⟨⟨fun t ht => h.covers t (List.mem_append_left _ ht), hpairs⟩,
    h.covers last (List.mem_append_right _ List.mem_cons_self),
    fun t ht => hordered t ht last List.mem_cons_self⟩

theorem push (h : Laid text tokens) (hmore : more ≠ []) (kind : TokenKind) (before : Trivia) :
    Laid (text ++ more) (tokens ++
      [⟨kind, ⟨Text.byteLength text, Text.byteLength (text ++ more)⟩, before⟩]) := by
  refine (h.append more).snoc ⟨more, hmore, text, [], by simp, rfl⟩ fun token htoken => ?_
  obtain ⟨part, hpart⟩ := h.covers token htoken
  exact hpart.bounds.2

theorem addToken {tokens : Array Token} (h : Laid text tokens.toList) (hmore : more ≠ [])
    (kind : TokenKind) (before : Trivia) :
    Laid (text ++ more) (addToken tokens kind
      ⟨Text.byteLength text, Text.byteLength (text ++ more)⟩ before).toList := by
  rcases addToken_cases tokens kind ⟨Text.byteLength text, Text.byteLength (text ++ more)⟩
    before with hpush | ⟨front, last, whole, rfl, -, hjoin⟩
  · rw [hpush, Array.toList_push]
    exact h.push hmore kind before
  · rw [Array.toList_push] at h
    obtain ⟨hfront, ⟨part, hpart⟩, hordered⟩ := h.init
    rw [hjoin, Array.toList_push]
    refine (hfront.append more).snoc (hpart.merge_last more) fun token htoken => ?_
    have hstop := hordered token htoken
    have hbounds := hpart.bounds
    simp only [Span.merge]
    omega

end Laid

namespace Progress

/-- A text has been read. -/
structure Reads (text : List Char) (progress : Progress) : Prop where
  offset_eq : progress.offset = Text.byteLength text
  laid : Laid text progress.tokens.toList

variable {text : List Char} {progress : Progress}

theorem Reads.add (h : progress.Reads text) {piece : Piece} (hpiece : piece.text ≠ []) :
    (progress.add piece).Reads (text ++ piece.text) := by
  obtain ⟨tokens, faults, offset, pending⟩ := progress
  obtain ⟨kind, more⟩ := piece
  obtain ⟨hoffset, hlaid⟩ := h
  obtain rfl : offset = Text.byteLength text := hoffset
  cases kind with
  | token kind =>
      have htoken := hlaid.addToken hpiece kind pending
      rw [Text.byteLength_append] at htoken
      exact ⟨(Text.byteLength_append text more).symm, htoken⟩
  | fault kind =>
      have hfault := hlaid.push hpiece .malformed pending
      rw [Text.byteLength_append, ← Array.toList_push] at hfault
      exact ⟨(Text.byteLength_append text more).symm, hfault⟩
  | blanks | lineFeed | lineComment | blockComment =>
      exact ⟨(Text.byteLength_append text more).symm, hlaid.append more⟩

theorem Reads.read (h : progress.Reads text) {pieces : List Piece}
    (hpieces : ∀ piece ∈ pieces, piece.text ≠ []) :
    (progress.read pieces).Reads (text ++ pieces.flatMap (·.text)) := by
  induction pieces generalizing text progress with
  | nil => simpa [Progress.read] using h
  | cons piece pieces ih =>
      obtain ⟨hpiece, hrest⟩ := List.forall_mem_cons.1 hpieces
      have hread := ih (h.add hpiece) hrest
      rw [List.append_assoc] at hread
      exact hread

theorem reads_nil : Reads [] {} := ⟨rfl, fun _ ht => (nomatch ht), List.Pairwise.nil⟩

theorem reads_ofText (cs : List Char) : (read {} (Piece.ofText cs).toList).Reads cs := by
  have hread := reads_nil.read (Piece.text_ne_nil cs)
  rwa [List.nil_append, Piece.text_ofText] at hread

/-! ## Texts that end in a token -/

theorem malformed_addToken {tokens : Array Token} (kind : TokenKind) (span : Span)
    (before : Trivia) (h : ∃ token ∈ tokens, token.kind = .malformed) :
    ∃ token ∈ addToken tokens kind span before, token.kind = .malformed := by
  obtain ⟨token, htoken, hkind⟩ := h
  rcases addToken_cases tokens kind span before with hpush | ⟨front, last, whole, rfl, hjoined, hjoin⟩
  · rw [hpush]
    exact ⟨token, Array.mem_push.2 (.inl htoken), hkind⟩
  · rw [hjoin]
    rcases Array.mem_push.1 htoken with hmem | rfl
    · exact ⟨token, Array.mem_push.2 (.inl hmem), hkind⟩
    · rw [hkind] at hjoined
      cases hjoined

theorem malformed_add {piece : Piece}
    (h : (∃ token ∈ progress.tokens, token.kind = .malformed) ∨ ∃ kind, piece.kind = .fault kind) :
    ∃ token ∈ (progress.add piece).tokens, token.kind = .malformed := by
  obtain ⟨kind, more⟩ := piece
  cases kind with
  | token kind =>
      rcases h with h | ⟨_, hkind⟩
      · exact malformed_addToken kind _ _ h
      · cases hkind
  | fault kind => exact ⟨_, Array.mem_push_self, rfl⟩
  | blanks | lineFeed | lineComment | blockComment =>
      rcases h with h | ⟨_, hkind⟩
      · exact h
      · cases hkind

theorem malformed_read {pieces : List Piece}
    (h : (∃ token ∈ progress.tokens, token.kind = .malformed) ∨
      ∃ piece ∈ pieces, ∃ kind, piece.kind = .fault kind) :
    ∃ token ∈ (progress.read pieces).tokens, token.kind = .malformed := by
  induction pieces generalizing progress with
  | nil =>
      rcases h with h | ⟨_, hmem, -⟩
      · exact h
      · cases hmem
  | cons piece pieces ih =>
      rcases h with h | ⟨piece', hmem, hkind⟩
      · exact ih (.inl (malformed_add (.inl h)))
      · rcases List.mem_cons.1 hmem with rfl | hmem
        · exact ih (.inl (malformed_add (.inr hkind)))
        · exact ih (.inr ⟨piece', hmem, hkind⟩)

theorem tokens_add_of_trivia {piece : Piece} (h : piece.trivia?.isSome = true) :
    (progress.add piece).tokens = progress.tokens := by
  obtain ⟨kind, more⟩ := piece
  cases kind with
  | token kind => cases h
  | fault kind => cases h
  | blanks | lineFeed | lineComment | blockComment => rfl

theorem complete_ofText {cs : List Char}
    (hkinds : ∀ token ∈ (read {} (Piece.ofText cs).toList).tokens, token.kind ≠ .malformed)
    (hend : ∃ token ∈ (read {} (Piece.ofText cs).toList).tokens,
      token.span.stop = Text.byteLength cs) : Piece.Complete (Piece.ofText cs).toList := by
  have hsound : ∀ piece ∈ (Piece.ofText cs).toList, ∀ kind, piece.kind ≠ .fault kind := by
    intro piece hpiece kind hkind
    have hread : ∃ token ∈ (read {} (Piece.ofText cs).toList).tokens, token.kind = .malformed :=
      malformed_read (.inr ⟨piece, hpiece, kind, hkind⟩)
    obtain ⟨token, htoken, hmalformed⟩ := hread
    exact hkinds token htoken hmalformed
  refine ⟨hsound, fun piece hpiece => ?_⟩
  obtain ⟨init, hinit⟩ := List.getLast?_eq_some_iff.1 hpiece
  have hmem : piece ∈ (Piece.ofText cs).toList := List.mem_of_getLast? hpiece
  have htexts := Piece.text_ne_nil cs
  have hwhole := Piece.text_ofText cs
  have hshort : piece.trivia?.isSome → False := by
    intro htrivia
    rw [hinit] at htexts hwhole hend
    obtain ⟨token, htoken, hstop⟩ := hend
    rw [read, List.foldl_append] at htoken
    change token ∈ ((read {} init).add piece).tokens at htoken
    rw [tokens_add_of_trivia htrivia] at htoken
    have hreads := reads_nil.read fun p hp => htexts p (List.mem_append_left _ hp)
    obtain ⟨part, hpart⟩ := hreads.laid.covers token (Array.mem_toList_iff.2 htoken)
    have hbounds := hpart.bounds
    have hpos := Text.byteLength_pos (htexts piece (by simp))
    rw [← hwhole, List.flatMap_append, Text.byteLength_append] at hstop
    simp only [List.nil_append, List.flatMap_cons, List.flatMap_nil, List.append_nil] at hbounds hstop
    omega
  cases hkind : piece.kind with
  | token kind => exact ⟨kind, rfl⟩
  | fault kind => exact absurd hkind (hsound piece hmem kind)
  | blanks | lineFeed | lineComment | blockComment =>
      exact absurd (by simp [Piece.trivia?, hkind]) hshort

end Progress
end Tokenized
end AnnotationScan
