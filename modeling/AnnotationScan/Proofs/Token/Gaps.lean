import AnnotationScan.Proofs.Token.Shapes

/-!
# Gaps between tokens

A gap is a row of blanks, line feeds and comments.  A line comment takes the rest of its line and a
block comment is closed, so that a gap is such a row in one way only.  The pieces between two tokens
form a gap, and the trivia they leave tell what is in it.
-/

namespace AnnotationScan

/-- A part of a gap.  A line comment is given without its two slashes, and a block comment by what
stands behind its opening. -/
inductive GapPart where
  | blank (c : Char)
  | lineFeed
  | lineComment (line : List Char)
  | blockComment (body : List Char)

namespace GapPart

def isBlank : GapPart → Bool
  | .blank _ => true
  | _ => false

def isComment : GapPart → Bool
  | .lineComment _ | .blockComment _ => true
  | _ => false

end GapPart

/-- A text is a gap with the given parts. -/
inductive Gap : List Char → List GapPart → Prop
  | nil : Gap [] []
  | blank {c : Char} {cs : List Char} {parts : List GapPart}
      (hc : c = ' ' ∨ c = '\t' ∨ c = '\r' ∨ c = '\x0c') (h : Gap cs parts) :
      Gap (c :: cs) (.blank c :: parts)
  | lineFeed {cs : List Char} {parts : List GapPart} (h : Gap cs parts) :
      Gap ('\n' :: cs) (.lineFeed :: parts)
  | lineComment {line cs : List Char} {parts : List GapPart} (hline : '\n' ∉ line)
      (hend : ∀ c ∈ cs.head?, c = '\n') (h : Gap cs parts) :
      Gap ('/' :: '/' :: (line ++ cs)) (.lineComment line :: parts)
  | blockComment {body cs : List Char} {parts : List GapPart} (hbody : CommentRest body)
      (h : Gap cs parts) : Gap ('/' :: '*' :: (body ++ cs)) (.blockComment body :: parts)

namespace Gap

variable {cs cs' : List Char} {parts parts' : List GapPart}

theorem takeWhile_line {line : List Char} (hline : '\n' ∉ line)
    (hend : ∀ c ∈ cs.head?, c = '\n') : (line ++ cs).takeWhile (· != '\n') = line := by
  have hall : ∀ c ∈ line, (c != '\n') = true := by
    intro c hc
    rw [bne_iff_ne]
    rintro rfl
    exact hline hc
  rw [List.takeWhile_append_of_pos hall]
  cases cs with
  | nil => simp
  | cons c cs =>
      obtain rfl := hend c rfl
      simp

/-- A text is a gap in one way at most. -/
theorem unique (h : Gap cs parts) (h' : Gap cs' parts') (heq : cs = cs') : parts = parts' := by
  induction h generalizing cs' parts' with
  | nil =>
      cases h' with
      | nil => rfl
      | _ => cases heq
  | blank hc _ ih =>
      cases h' with
      | nil => cases heq
      | blank _ hrest =>
          obtain ⟨rfl, htail⟩ := List.cons.inj heq
          rw [ih hrest htail]
      | lineFeed | lineComment | blockComment =>
          obtain ⟨rfl, -⟩ := List.cons.inj heq
          exact absurd hc (by decide)
  | lineFeed _ ih =>
      cases h' with
      | nil => cases heq
      | lineFeed hrest =>
          rw [ih hrest (List.cons.inj heq).2]
      | blank hc =>
          obtain ⟨rfl, -⟩ := List.cons.inj heq
          exact absurd hc (by decide)
      | lineComment | blockComment => cases heq
  | lineComment hline hend _ ih =>
      cases h' with
      | nil => cases heq
      | lineComment hline' hend' hrest =>
          obtain ⟨-, htail⟩ := List.cons.inj (List.cons.inj heq).2
          -- both lines end at the first line feed
          have hwhole := congrArg (List.takeWhile (· != '\n')) htail
          rw [takeWhile_line hline hend, takeWhile_line hline' hend'] at hwhole
          subst hwhole
          rw [ih hrest (List.append_cancel_left htail)]
      | blank hc =>
          obtain ⟨rfl, -⟩ := List.cons.inj heq
          exact absurd hc (by decide)
      | lineFeed | blockComment => cases heq
  | blockComment hbody _ ih =>
      cases h' with
      | nil => cases heq
      | blockComment hbody' hrest =>
          obtain ⟨-, htail⟩ := List.cons.inj (List.cons.inj heq).2
          obtain ⟨rfl, hmore⟩ := hbody.unique hbody' htail
          rw [ih hrest hmore]
      | blank hc =>
          obtain ⟨rfl, -⟩ := List.cons.inj heq
          exact absurd hc (by decide)
      | lineFeed | lineComment => cases heq

end Gap

namespace Trivia

/-- The trivia that a part of a gap leaves. -/
def ofPart : GapPart → Trivia
  | .blank _ => { blank := true }
  | .lineFeed => { lineFeed := true }
  | .lineComment _ => { comment := true }
  | .blockComment body => { comment := true, lineFeed := body.contains '\n' }

def ofParts (parts : List GapPart) : Trivia :=
  parts.foldr (fun part before => (ofPart part).union before) .empty

/-- The trivia that some pieces leave together. -/
def ofPieces (pieces : List Piece) : Trivia :=
  pieces.foldr (fun piece before => (piece.trivia?.getD .empty).union before) .empty

theorem ofParts_cons (part : GapPart) (parts : List GapPart) :
    ofParts (part :: parts) = (ofPart part).union (ofParts parts) := rfl

theorem ofPieces_cons (piece : Piece) (pieces : List Piece) :
    ofPieces (piece :: pieces) = (piece.trivia?.getD .empty).union (ofPieces pieces) := rfl

theorem ofPieces_append (pieces more : List Piece) :
    ofPieces (pieces ++ more) = (ofPieces pieces).union (ofPieces more) := by
  induction pieces with
  | nil => exact (empty_union _).symm
  | cons piece pieces ih => rw [List.cons_append, ofPieces_cons, ofPieces_cons, ih, union_assoc]

theorem ofPieces_singleton (piece : Piece) : ofPieces [piece] = piece.trivia?.getD .empty :=
  union_empty _

theorem ofPieces_ne_empty {piece : Piece} (hpiece : piece.trivia?.isSome = true)
    (pieces : List Piece) : ofPieces (piece :: pieces) ≠ .empty := by
  rw [ofPieces_cons]
  apply union_ne_empty
  obtain ⟨kind, text⟩ := piece
  cases kind with
  | token | fault => cases hpiece
  | blanks | lineFeed | lineComment | blockComment => simp [Piece.trivia?, empty]

end Trivia

namespace Gap

variable {cs text : List Char} {parts : List GapPart}

theorem blanks (htext : ∀ c ∈ text, Piece.isInlineBlank c = true) (h : Gap cs parts) :
    Gap (text ++ cs) (text.map .blank ++ parts) := by
  induction text with
  | nil => exact h
  | cons c text ih =>
      obtain ⟨hc, hrest⟩ := List.forall_mem_cons.1 htext
      refine .blank ?_ (ih hrest)
      simpa [Piece.isInlineBlank, or_assoc] using hc

theorem ofParts_blanks (hne : text ≠ []) (parts : List GapPart) :
    Trivia.ofParts (text.map .blank ++ parts) =
      ({ blank := true } : Trivia).union (Trivia.ofParts parts) := by
  induction text with
  | nil => exact absurd rfl hne
  | cons c text ih =>
      rw [List.map_cons, List.cons_append, Trivia.ofParts_cons]
      by_cases htext : text = []
      · rw [htext]
        rfl
      · rw [ih htext, ← Trivia.union_assoc]
        rfl

theorem of_pieces {cs : List Char} {front gap back : List Piece}
    (h : (Piece.ofText cs).toList = front ++ (gap ++ back))
    (hgap : ∀ piece ∈ gap, piece.trivia?.isSome = true) :
    ∃ parts, Gap (gap.flatMap (·.text)) parts ∧ Trivia.ofPieces gap = Trivia.ofParts parts := by
  induction gap generalizing front with
  | nil => exact ⟨[], .nil, rfl⟩
  | cons piece gap ih =>
      obtain ⟨hpiece, hrest⟩ := List.forall_mem_cons.1 hgap
      have hshape : Piece.Shape ((gap ++ back).flatMap (·.text)) piece := Piece.shape_of_mem h
      rw [List.cons_append, ← List.singleton_append, ← List.append_assoc] at h
      obtain ⟨parts, hparts, htrivia⟩ := ih h hrest
      rw [List.flatMap_cons, Trivia.ofPieces_cons, htrivia]
      cases hshape with
      | blanks hne htext => exact ⟨_, hparts.blanks htext, (ofParts_blanks hne parts).symm⟩
      | lineFeed => exact ⟨_, hparts.lineFeed, rfl⟩
      | lineComment hline hend =>
          refine ⟨_, hparts.lineComment hline fun c hc => hend c ?_, rfl⟩
          rw [List.flatMap_append, List.head?_append, Option.mem_def.1 hc]
          exact Option.mem_some_self c
      | blockComment hbody => exact ⟨_, hparts.blockComment hbody, rfl⟩
      | spelled | unspelled | fault => cases hpiece

/-- What the parts of a gap leave is what the gap contains. -/
theorem ofParts_spec (h : Gap cs parts) :
    ((Trivia.ofParts parts).lineFeed = true ↔ '\n' ∈ cs) ∧
      ((Trivia.ofParts parts).comment = true ↔ ∃ part ∈ parts, part.isComment = true) ∧
      ((Trivia.ofParts parts).blank = true ↔ ∃ part ∈ parts, part.isBlank = true) ∧
      (Trivia.ofParts parts = .empty ↔ cs = []) := by
  induction h with
  | nil => simp [Trivia.ofParts, Trivia.empty]
  | @blank c _ _ hc _ ih =>
      obtain ⟨hfeed, hcomment, -, -⟩ := ih
      have hne : '\n' ≠ c := by
        rintro rfl
        exact absurd hc (by decide)
      simp [Trivia.ofParts_cons, Trivia.ofPart, Trivia.union, GapPart.isComment, GapPart.isBlank,
        hfeed, hcomment, hne, Trivia.empty]
  | lineFeed _ ih =>
      obtain ⟨-, hcomment, hblank, -⟩ := ih
      simp [Trivia.ofParts_cons, Trivia.ofPart, Trivia.union, GapPart.isComment, GapPart.isBlank,
        hcomment, hblank, Trivia.empty]
  | lineComment hline _ _ ih =>
      obtain ⟨hfeed, -, hblank, -⟩ := ih
      simp [Trivia.ofParts_cons, Trivia.ofPart, Trivia.union, GapPart.isComment, GapPart.isBlank,
        hfeed, hblank, hline, Trivia.empty]
  | blockComment _ _ ih =>
      obtain ⟨hfeed, -, hblank, -⟩ := ih
      simp [Trivia.ofParts_cons, Trivia.ofPart, Trivia.union, GapPart.isComment, GapPart.isBlank,
        hfeed, hblank, Trivia.empty]

end Gap
end AnnotationScan
