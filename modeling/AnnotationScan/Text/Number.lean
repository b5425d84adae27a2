/-!
# Decimal numerals

Numerals are ASCII digits after an optional sign, and a value outside the wanted range is refused.
There is no other notation: no blanks, no digit separators and no other scripts.
-/

namespace AnnotationScan.Text

/-- The value of the digits `cs` written behind the digits of `value`. -/
def digitsValue (value : Nat) (cs : List Char) : Nat :=
  cs.foldl (fun value c => 10 * value + (c.toNat - '0'.toNat)) value

/-- The value of a non-empty run of ASCII digits. -/
def digits? (cs : List Char) : Option Nat :=
  if !cs.isEmpty && cs.all Char.isDigit then some (digitsValue 0 cs) else none

/-- A natural number of at most `largest`: digits, with `+` before them or not. -/
def natural? (largest : Nat) (cs : List Char) : Option Nat :=
  let magnitude := match cs with
    | '+' :: rest => digits? rest
    | _ => digits? cs
  magnitude.filter (· ≤ largest)

/-- An integer from `smallest` to `largest`: digits, with a sign before them or not. -/
def integer? (smallest largest : Int) (cs : List Char) : Option Int :=
  let value := match cs with
    | '-' :: rest => (digits? rest).map fun magnitude => -(magnitude : Int)
    | '+' :: rest => (digits? rest).map fun magnitude => (magnitude : Int)
    | _ => (digits? cs).map fun magnitude => (magnitude : Int)
  value.filter fun value => smallest ≤ value && value ≤ largest

end AnnotationScan.Text
