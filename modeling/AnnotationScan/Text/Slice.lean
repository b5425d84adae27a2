/-!
# Slices by byte offsets

Positions in a source text are counted in bytes of its UTF-8 form.  A range of bytes is a slice of
the text only if it lies inside and does not cut a character.  The main statement, `slice?_append`,
says that the slice behind a first part and as long as a second one is the second part.
-/

namespace AnnotationScan.Text

/-- The number of bytes of a text in UTF-8. -/
def byteLength : List Char → Nat
  | [] => 0
  | c :: cs => c.utf8Size + byteLength cs

@[simp] theorem byteLength_nil : byteLength [] = 0 := rfl

@[simp] theorem byteLength_cons (c : Char) (cs : List Char) :
    byteLength (c :: cs) = c.utf8Size + byteLength cs := rfl

@[simp] theorem byteLength_append (a b : List Char) :
    byteLength (a ++ b) = byteLength a + byteLength b := by
  induction a with
  | nil => simp
  | cons c a ih => simp [ih, Nat.add_assoc]

theorem utf8ByteSize_ofList (cs : List Char) :
    (String.ofList cs).utf8ByteSize = byteLength cs := by
  induction cs with
  | nil => rfl
  | cons c cs ih =>
    rw [show c :: cs = [c] ++ cs from rfl, String.ofList_append, String.utf8ByteSize_append, ih]
    simp

/-- The text from byte `start` to byte `stop`, if both are ends of characters in that order. -/
def slice? (text : String) (start stop : Nat) : Option String :=
  if h : (String.Pos.Raw.mk start).IsValid text ∧ (String.Pos.Raw.mk stop).IsValid text ∧
      start ≤ stop then
    some (text.extract (text.pos ⟨start⟩ h.1) (text.pos ⟨stop⟩ h.2.1))
  else none

/-- The end of a first part is the end of a character. -/
theorem isValid_byteLength (a b : List Char) :
    (String.Pos.Raw.mk (byteLength a)).IsValid (String.ofList (a ++ b)) := by
  rw [String.Pos.Raw.isValid_iff_exists_append]
  exact ⟨String.ofList a, String.ofList b, String.ofList_append,
    by simp [String.rawEndPos, utf8ByteSize_ofList]⟩

theorem slice?_append (a b c : List Char) :
    slice? (String.ofList (a ++ b ++ c)) (byteLength a) (byteLength (a ++ b)) =
      some (String.ofList b) := by
  have first : (String.Pos.Raw.mk (byteLength a)).IsValid (String.ofList (a ++ b ++ c)) := by
    rw [List.append_assoc]
    exact isValid_byteLength a (b ++ c)
  have last := isValid_byteLength (a ++ b) c
  rw [slice?, dif_pos ⟨first, last, by simp⟩]
  congr 1
  apply String.toByteArray_inj.1
  rw [String.toByteArray_extract]
  change (String.ofList (a ++ b ++ c)).toByteArray.extract (byteLength a) (byteLength (a ++ b)) = _
  have size (cs : List Char) : byteLength cs = (String.ofList cs).toByteArray.size :=
    (utf8ByteSize_ofList cs).symm
  simp only [String.ofList_append, String.toByteArray_append, size, ByteArray.size_append,
    ByteArray.append_assoc]
  have behind := ByteArray.extract_append_size_add (a := (String.ofList a).toByteArray)
    (b := (String.ofList b).toByteArray ++ (String.ofList c).toByteArray) (i := 0)
    (j := (String.ofList b).toByteArray.size)
  rw [Nat.add_zero] at behind
  rw [behind, ByteArray.extract_append_eq_left rfl]

end AnnotationScan.Text
