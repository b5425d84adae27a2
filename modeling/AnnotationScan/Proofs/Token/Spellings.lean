import AnnotationScan.Proofs.Token.Standing

/-!
# Tokens with one spelling

A token of a kind with one spelling has that spelling as its text, be it made of one piece or of two.
-/

namespace AnnotationScan

theorem TokenKind.spelling?_of_mem_unspelled {kind : TokenKind} (h : kind ∈ unspelled) :
    kind.spelling? = none := by
  simp only [unspelled, List.mem_cons, List.not_mem_nil, or_false] at h
  rcases h with rfl | rfl | rfl | rfl | rfl | rfl <;> rfl

theorem Piece.Shape.text_of_spelling {rest text : List Char} {kind : TokenKind} {spelling : String}
    (h : Shape rest ⟨.token kind, text⟩) (hspelling : kind.spelling? = some spelling) :
    text = spelling.toList := by
  cases h with
  | spelled _ => rw [hspelling, Option.getD_some]
  | unspelled hkind =>
      rw [TokenKind.spelling?_of_mem_unspelled hkind] at hspelling
      cases hspelling

namespace Tokenized

variable {cs : List Char} {kind : TokenKind} {own : List Piece}

/-- Two pieces that form a token have one spelling each. -/
theorem Makes.spellings {first second : List Char} {a b : TokenKind} {front back : List Piece}
    (h : a.joined? b = some kind) (hpieces : (Piece.ofText cs).toList =
      front ++ (⟨.token a, first⟩ :: ⟨.token b, second⟩ :: back)) :
    first = (a.spelling?.getD "").toList ∧ second = (b.spelling?.getD "").toList := by
  have hfirst := Piece.shape_of_mem hpieces
  rw [← List.singleton_append, ← List.append_assoc] at hpieces
  have hsecond := Piece.shape_of_mem hpieces
  rcases TokenKind.joined?_cases h with ⟨rfl, rfl, rfl⟩ | ⟨rfl, rfl, rfl⟩ | ⟨rfl, rfl, rfl⟩
  all_goals exact ⟨hfirst.text_of_spelling rfl, hsecond.text_of_spelling rfl⟩

theorem Makes.pair {first second : List Char} {a b : TokenKind} {front back : List Piece}
    (h : a.joined? b = some kind) (hpieces : (Piece.ofText cs).toList =
      front ++ (⟨.token a, first⟩ :: ⟨.token b, second⟩ :: back)) :
    kind.spelling? = some (.ofList (first ++ second)) := by
  obtain ⟨rfl, rfl⟩ := Makes.spellings h hpieces
  rcases TokenKind.joined?_cases h with ⟨rfl, rfl, rfl⟩ | ⟨rfl, rfl, rfl⟩ | ⟨rfl, rfl, rfl⟩ <;> rfl

theorem Makes.text_of_spelling {spelling : String} {front back : List Piece}
    (h : Makes kind own) (hpieces : (Piece.ofText cs).toList = front ++ (own ++ back))
    (hspelling : kind.spelling? = some spelling) : own.flatMap (·.text) = spelling.toList := by
  cases h with
  | token _ text =>
      have hshape := Piece.shape_of_mem hpieces
      rw [List.flatMap_singleton]
      exact hshape.text_of_spelling hspelling
  | joined hjoined first second =>
      rw [Makes.pair hjoined hpieces] at hspelling
      obtain rfl := Option.some.inj hspelling
      simp
  | fault => cases hspelling

end Tokenized
end AnnotationScan
