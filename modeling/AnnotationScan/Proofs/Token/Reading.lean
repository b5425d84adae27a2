import AnnotationScan.Proofs.Token.Pieces
import AnnotationScan.Token.Tokenized

/-!
# Reading on

What is read behind a gap is what is read on its own, moved by what lies in front: the tokens in
front stay as they are, and the first token behind the gap does not join with the last of them.
-/

namespace AnnotationScan

open Form (isGap)

def Span.moved (span : Span) (offset : Nat) : Span := ⟨offset + span.start, offset + span.stop⟩

theorem Span.moved_merge (a b : Span) (offset : Nat) :
    (a.merge b).moved offset = (a.moved offset).merge (b.moved offset) := by
  simp [moved, merge, Nat.add_min_add_left, Nat.add_max_add_left]

namespace Trivia

theorem empty_union (a : Trivia) : empty.union a = a := by
  simp [union, empty]

theorem union_empty (a : Trivia) : a.union empty = a := by
  simp [union, empty]

theorem union_comm (a b : Trivia) : a.union b = b.union a := by
  simp [union, Bool.or_comm]

theorem union_assoc (a b c : Trivia) : (a.union b).union c = a.union (b.union c) := by
  simp [union, Bool.or_assoc]

theorem union_ne_empty {a : Trivia} (h : a ≠ empty) (b : Trivia) : a.union b ≠ empty := by
  obtain ⟨blank, lineFeed, comment⟩ := a
  intro hunion
  simp only [union, empty, Trivia.mk.injEq, Bool.or_eq_false_iff] at hunion
  exact h (by simp [empty, hunion.1.1, hunion.2.1.1, hunion.2.2.1])

def ofGap (gap : Char) : Trivia := if gap = '\n' then { lineFeed := true } else { blank := true }

end Trivia

namespace Tokenized

/-- The tokens in front of the mark of the end that some pieces give. -/
def Progress.read (progress : Progress) (pieces : List Piece) : Progress :=
  pieces.foldl Progress.add progress

theorem ofSource_eq (source : String) :
    ofSource source =
      let progress := Progress.read {} (Piece.ofText source.toList).toList
      ⟨⟨source, progress.closed⟩, progress.faults⟩ := by
  simp [ofSource, ofPieces, Progress.read]

/-- A token further on, behind some trivia. -/
def behind (offset : Nat) (before : Trivia) (token : Token) : Token :=
  ⟨token.kind, token.span.moved offset, before.union token.before⟩

namespace Progress

/-- What a text read on its own comes to behind another one. -/
def followedBy (base own : Progress) : Progress where
  tokens := base.tokens ++ own.tokens.mapIdx fun index =>
    behind base.offset (if index = 0 then base.pending else .empty)
  faults := base.faults ++ own.faults.map fun fault =>
    { fault with span := fault.span.moved base.offset }
  offset := base.offset + own.offset
  pending := if own.tokens.isEmpty then base.pending.union own.pending else own.pending

theorem followedBy_start (base : Progress) : base.followedBy {} = base := by
  simp [followedBy, Trivia.union_empty]

end Progress

theorem addToken_apart (tokens : Array Token) (kind : TokenKind) (span : Span) {before : Trivia}
    (h : before ≠ .empty) : addToken tokens kind span before = tokens.push ⟨kind, span, before⟩ := by
  simp [addToken, h]

theorem addToken_touching (front : Array Token) (last : Token) (kind : TokenKind) (span : Span) :
    addToken (front.push last) kind span .empty =
      match last.kind.joined? kind with
      | some whole => front.push ⟨whole, last.span.merge span, last.before⟩
      | none => (front.push last).push ⟨kind, span, .empty⟩ := by
  cases hjoined : last.kind.joined? kind with
  | some whole => simp [addToken, hjoined]
  | none => simp [addToken, hjoined]

/-- A token is added at the end, or it joins with the token there. -/
theorem addToken_cases (tokens : Array Token) (kind : TokenKind) (span : Span) (before : Trivia) :
    addToken tokens kind span before = tokens.push ⟨kind, span, before⟩ ∨
      ∃ (front : Array Token) (last : Token) (whole : TokenKind), tokens = front.push last ∧
        last.kind.joined? kind = some whole ∧ addToken tokens kind span before =
          front.push ⟨whole, last.span.merge span, last.before⟩ := by
  by_cases hbefore : before = .empty
  · subst hbefore
    rcases Nat.eq_zero_or_pos tokens.size with hempty | hpos
    · obtain rfl := Array.eq_empty_of_size_eq_zero hempty
      exact .inl rfl
    · obtain ⟨front, last, rfl⟩ := Array.exists_push_of_size_pos hpos
      rw [addToken_touching]
      cases hjoined : last.kind.joined? kind with
      | some whole => exact .inr ⟨front, last, whole, rfl, hjoined, rfl⟩
      | none => exact .inl rfl
  · exact .inl (addToken_apart tokens kind span hbefore)

theorem isEmpty_addToken (tokens : Array Token) (kind : TokenKind) (span : Span)
    (before : Trivia) : (addToken tokens kind span before).isEmpty = false := by
  rcases addToken_cases tokens kind span before with hpush | ⟨front, last, whole, -, -, hjoin⟩
  · simp [hpush]
  · simp [hjoin]

/-- Behind a gap, or behind another token, a token joins with the token it joins with on its own. -/
theorem addToken_followedBy (base own : Array Token) (offset : Nat) {gap : Trivia}
    (hgap : own = #[] → gap ≠ .empty) (kind : TokenKind) (span : Span) (before : Trivia) :
    addToken (base ++ own.mapIdx fun i => behind offset (if i = 0 then gap else .empty)) kind
        (span.moved offset) (if own.isEmpty then gap.union before else before) =
      base ++ (addToken own kind span before).mapIdx fun i =>
        behind offset (if i = 0 then gap else .empty) := by
  rcases Nat.eq_zero_or_pos own.size with hempty | hpos
  · obtain rfl := Array.eq_empty_of_size_eq_zero hempty
    simp [addToken, Trivia.union_ne_empty (hgap rfl) before, behind]
  · obtain ⟨front, last, rfl⟩ := Array.exists_push_of_size_pos hpos
    rw [Array.mapIdx_push, Array.append_push, Array.isEmpty_push, if_neg Bool.false_ne_true]
    by_cases hbefore : before = .empty
    · subst hbefore
      rw [addToken_touching, addToken_touching]
      change (match last.kind.joined? kind with | some whole => _ | none => _) = _
      cases last.kind.joined? kind with
      | some whole => simp [behind, Span.moved_merge]
      | none => simp [behind, Trivia.empty_union]
    · rw [addToken_apart _ _ _ hbefore, addToken_apart _ _ _ hbefore]
      simp [behind, Trivia.empty_union]

namespace Progress

theorem add_followedBy (base own : Progress) (hgap : own.tokens = #[] → base.pending ≠ .empty)
    (piece : Piece) : (base.followedBy own).add piece = base.followedBy (own.add piece) := by
  obtain ⟨tokens, faults, offset, pending⟩ := own
  obtain ⟨kind, text⟩ := piece
  have htoken := addToken_followedBy base.tokens tokens base.offset hgap
  have hbefore : ∀ trivia : Trivia, (if tokens = #[] then base.pending else .empty).union trivia =
      if tokens = #[] then base.pending.union trivia else trivia := by
    intro trivia
    split
    · rfl
    · exact trivia.empty_union
  cases kind with
  | token kind =>
      simp only [add, followedBy, isEmpty_addToken, ← htoken]
      simp [Span.moved, Nat.add_assoc]
  | fault kind => simp [add, followedBy, behind, hbefore, Nat.add_assoc, Span.moved]
  | blanks | lineFeed | lineComment | blockComment =>
      by_cases hempty : tokens = #[]
      · simp [add, followedBy, Nat.add_assoc, hempty, Trivia.union_assoc]
      · simp [add, followedBy, Nat.add_assoc, hempty]

theorem tokens_of_add_eq_empty {progress : Progress} {piece : Piece}
    (h : (progress.add piece).tokens = #[]) : progress.tokens = #[] := by
  obtain ⟨tokens, faults, offset, pending⟩ := progress
  obtain ⟨kind, text⟩ := piece
  cases kind with
  | token kind => simp [add, ← Array.isEmpty_iff, isEmpty_addToken] at h
  | fault kind => simp [add] at h
  | blanks | lineFeed | lineComment | blockComment => exact h

theorem read_followedBy (base own : Progress) (hgap : own.tokens = #[] → base.pending ≠ .empty)
    (pieces : List Piece) :
    (base.followedBy own).read pieces = base.followedBy (own.read pieces) := by
  induction pieces generalizing own with
  | nil => rfl
  | cons piece pieces ih =>
      rw [read, List.foldl_cons, add_followedBy base own hgap]
      exact ih (own.add piece) fun hempty => hgap (tokens_of_add_eq_empty hempty)

theorem closed_followedBy (base own : Progress) :
    (base.followedBy own).closed = base.tokens ++ own.closed.mapIdx fun index =>
      behind base.offset (if index = 0 then base.pending else .empty) := by
  simp only [closed, followedBy, Array.mapIdx_push, Array.append_push, Array.isEmpty_iff,
    Array.size_eq_zero_iff]
  congr 1
  simp only [behind, Span.moved, Span.point, Token.mk.injEq, true_and]
  split
  · rfl
  · exact (Trivia.empty_union _).symm

/-- A text read up to a gap, and the gap. -/
def past (progress : Progress) (gap : Char) : Progress :=
  { progress with
    offset := progress.offset + gap.utf8Size
    pending := progress.pending.union (.ofGap gap) }

theorem read_blanks (progress : Progress) {c : Char} (hc : Piece.isInlineBlank c = true)
    (cs : List Char) :
    progress.read (Piece.ofText (c :: cs)).toList =
      (progress.add ⟨.blanks, c :: cs.takeWhile Piece.isInlineBlank⟩).read
        (Piece.ofText (cs.dropWhile Piece.isInlineBlank)).toList := by
  have hdrop : cs.drop (cs.takeWhile Piece.isInlineBlank).length =
      cs.dropWhile Piece.isInlineBlank :=
    List.append_cancel_left ((List.prefix_iff_eq_append.1 (List.takeWhile_prefix _)).trans
      List.takeWhile_append_dropWhile.symm)
  rw [Piece.ofText_cons, Piece.atStart_blank hc, List.length_cons, List.drop_succ_cons, hdrop]
  rfl

/-- A gap moves what is read behind it and leaves its mark there. -/
theorem read_gap (progress : Progress) {gap : Char} (hgap : isGap gap = true) (cs : List Char) :
    progress.read (Piece.ofText (gap :: cs)).toList =
      (progress.past gap).read (Piece.ofText cs).toList := by
  by_cases hfeed : gap = '\n'
  · subst hfeed
    rw [Piece.ofText_cons, Piece.atStart_lineFeed]
    rfl
  · have hblank : Piece.isInlineBlank gap = true := by
      have hblanks : Form.gaps.all (fun c => c = '\n' || Piece.isInlineBlank c) = true := by decide
      simpa [hfeed] using List.all_eq_true.1 hblanks gap (List.contains_iff_mem.1 hgap)
    have hmark : Trivia.ofGap gap = { blank := true } := if_neg hfeed
    have hadd : ∀ (progress : Progress) (text : List Char), progress.add ⟨.blanks, text⟩ =
        { progress with
          offset := progress.offset + Text.byteLength text
          pending := progress.pending.union { blank := true } } := fun _ _ => rfl
    rw [read_blanks progress hblank, hadd]
    by_cases hmore : ∃ d ds, cs = d :: ds ∧ Piece.isInlineBlank d = true
    · obtain ⟨d, ds, rfl, hd⟩ := hmore
      rw [read_blanks _ hd, hadd, List.takeWhile_cons_of_pos hd, List.dropWhile_cons_of_pos hd]
      simp [past, hmark, Trivia.union, Nat.add_assoc]
    · have hnone : cs.takeWhile Piece.isInlineBlank = [] ∧
          cs.dropWhile Piece.isInlineBlank = cs := by
        cases cs with
        | nil => exact ⟨rfl, rfl⟩
        | cons d ds =>
            have hd : ¬Piece.isInlineBlank d = true := fun hd => hmore ⟨d, ds, rfl, hd⟩
            exact ⟨List.takeWhile_cons_of_neg hd, List.dropWhile_cons_of_neg hd⟩
      rw [hnone.1, hnone.2, past, hmark]
      simp

theorem read_gaps (progress : Progress) {gaps : List Char} (hgaps : gaps.all isGap = true)
    (cs : List Char) :
    progress.read (Piece.ofText (gaps ++ cs)).toList =
      (gaps.foldl past progress).read (Piece.ofText cs).toList := by
  induction gaps generalizing progress with
  | nil => rfl
  | cons gap gaps ih =>
      rw [List.all_cons, Bool.and_eq_true] at hgaps
      rw [List.cons_append, read_gap progress hgaps.1, List.foldl_cons]
      exact ih (progress.past gap) hgaps.2

theorem tokens_past (progress : Progress) (gaps : List Char) :
    (gaps.foldl past progress).tokens = progress.tokens := by
  induction gaps generalizing progress with
  | nil => rfl
  | cons gap gaps ih => exact ih (progress.past gap)

theorem faults_past (progress : Progress) (gaps : List Char) :
    (gaps.foldl past progress).faults = progress.faults := by
  induction gaps generalizing progress with
  | nil => rfl
  | cons gap gaps ih => exact ih (progress.past gap)

theorem offset_past (progress : Progress) (gaps : List Char) :
    (gaps.foldl past progress).offset = progress.offset + Text.byteLength gaps := by
  induction gaps generalizing progress with
  | nil => rfl
  | cons gap gaps ih =>
      rw [List.foldl_cons, ih, past, Text.byteLength_cons]
      exact Nat.add_assoc _ _ _

theorem lineFeed_past (progress : Progress) (gaps : List Char) :
    (gaps.foldl past progress).pending.lineFeed =
      (progress.pending.lineFeed || gaps.contains '\n') := by
  induction gaps generalizing progress with
  | nil => simp
  | cons gap gaps ih =>
      have hmark : (Trivia.ofGap gap).lineFeed = ('\n' == gap) := by
        by_cases hfeed : gap = '\n'
        · subst hfeed
          rfl
        · rw [Trivia.ofGap, if_neg hfeed]
          exact (beq_eq_false_iff_ne.2 (Ne.symm hfeed)).symm
      rw [List.foldl_cons, ih, List.contains_cons, ← hmark, ← Bool.or_assoc]
      rfl

theorem pending_past (progress : Progress) {gaps : List Char}
    (h : progress.pending ≠ .empty ∨ gaps ≠ []) :
    (gaps.foldl past progress).pending ≠ .empty := by
  induction gaps generalizing progress with
  | nil => exact h.resolve_right fun hnil => hnil rfl
  | cons gap gaps ih =>
      have hgap : Trivia.ofGap gap ≠ .empty := by
        unfold Trivia.ofGap
        split <;> decide
      refine ih (progress.past gap) (.inl ?_)
      rw [past, Trivia.union_comm]
      exact Trivia.union_ne_empty hgap _

end Progress

end Tokenized
end AnnotationScan
