import AnnotationScan.Text.CodeRange

/-!
# First bytes

The first byte of a character's UTF-8 form is all that a reader of bytes knows of the character when
it decides whether to go on.  First bytes grow with the code point, so a range of characters has a
range of first bytes.
-/

namespace AnnotationScan.Text

/-- The first byte of the UTF-8 form of a code point. -/
def firstByte (code : Nat) : Nat :=
  if code < 0x80 then code
  else if code < 0x800 then 0xC0 + code / 0x40
  else if code < 0x10000 then 0xE0 + code / 0x1000
  else 0xF0 + code / 0x40000

/-- Whether some character of the ranges has the same first byte as `c`. -/
def CodeRange.sharesFirstByte (ranges : List CodeRange) (c : Char) : Bool :=
  ranges.any fun range =>
    firstByte range.1 ≤ firstByte c.toNat && firstByte c.toNat ≤ firstByte range.2

theorem firstByte_mono {a b : Nat} (h : a ≤ b) (hb : b < 0x110000) :
    firstByte a ≤ firstByte b := by
  unfold firstByte
  repeat' split
  all_goals omega

end AnnotationScan.Text
