import AnnotationScan.Token.Form

/-!
# Numbers and characters

The forms of integer, float and character literals.  Underscores may stand behind the first digit of
every group of digits.
-/

namespace AnnotationScan.Form

def isHexDigit (c : Char) : Bool :=
  c.isDigit || ('a' ≤ c && c ≤ 'f') || ('A' ≤ c && c ≤ 'F')

/-- A character of a class, then more of them or underscores. -/
def group (isDigit : Char → Bool) : Form :=
  chain [one isDigit, many fun c => isDigit c || c = '_']

/-- The marks of unsigned and long integers. -/
def integerSuffix : Form :=
  chain [optional (one fun c => c = 'u' || c = 'U'), optional (one (· = 'L'))]

/-- An integer with the given mark of its base behind a zero. -/
def basedInteger (mark isDigit : Char → Bool) : Form :=
  chain [one (· = '0'), one mark, group isDigit, integerSuffix]

/-- The three notations of an integer. -/
def integers : List Form :=
  [chain [group Char.isDigit, integerSuffix],
    basedInteger (fun c => c = 'x' || c = 'X') isHexDigit,
    basedInteger (fun c => c = 'b' || c = 'B') fun c => c = '0' || c = '1']

def exponent : Form :=
  chain [one fun c => c = 'e' || c = 'E', optional (one fun c => c = '+' || c = '-'),
    group Char.isDigit]

/-- The mark of a short float. -/
def floatMark : Form := one fun c => c = 'f' || c = 'F'

/-- A point and the digits behind it. -/
def fraction : Form :=
  chain [one (· = '.'), group Char.isDigit, optional exponent, optional floatMark]

/-- The notations of a float: with a point, with an exponent only, or with its mark only. -/
def floats : List Form :=
  [chain [group Char.isDigit, fraction],
    fraction,
    chain [group Char.isDigit, exponent, optional floatMark],
    chain [group Char.isDigit, floatMark]]

/-- A character between single quotes, as itself, by an escape or by its code unit. -/
def character : Form :=
  chain [one (· = '\''),
    first [one fun c => c != '\'' && c != '\\' && c != '\r' && c != '\n',
      chain [one (· = '\\'), one fun c => "tbnr'\"\\$".toList.contains c],
      chain [literal ['\\', 'u'], one isHexDigit, one isHexDigit, one isHexDigit,
        one isHexDigit]],
    one (· = '\'')]

end AnnotationScan.Form
