/-!
# Ranges of code points

A character class of the Unicode standard is a finite union of ranges of code points.  The tables
of this library are lists of such ranges, first and last member included.
-/

namespace AnnotationScan.Text

/-- The code points from the first component to the second, both included. -/
abbrev CodeRange := Nat × Nat

def CodeRange.covers (ranges : List CodeRange) (c : Char) : Bool :=
  ranges.any fun range => range.1 ≤ c.toNat && c.toNat ≤ range.2

theorem CodeRange.covers_iff {ranges : List CodeRange} {c : Char} :
    covers ranges c = true ↔ ∃ range ∈ ranges, range.1 ≤ c.toNat ∧ c.toNat ≤ range.2 := by
  simp [covers]

end AnnotationScan.Text
