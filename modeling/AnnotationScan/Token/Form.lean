/-!
# Forms of text

A form says how many characters at the start of a text belong to it.  Forms are built by chaining,
and each repetition takes as many characters as it can; this loses nothing, because no form here
continues with a character that the repetition before it takes.
-/

namespace AnnotationScan

/-- The number of characters at the start of a text that have a certain form, if any have. -/
abbrev Form := List Char → Option Nat

namespace Form

def one (holds : Char → Bool) : Form
  | c :: _ => if holds c then some 1 else none
  | [] => none

/-- As many characters of a class as there are. -/
def many (holds : Char → Bool) : Form :=
  fun cs => some (cs.takeWhile holds).length

def literal (spelling : List Char) : Form :=
  fun cs => if spelling.isPrefixOf cs then some spelling.length else none

/-- A form, or nothing where the text does not have it. -/
def optional (form : Form) : Form :=
  fun cs => some ((form cs).getD 0)

/-- The first form that the text has. -/
def first (forms : List Form) : Form :=
  fun cs => forms.findSome? fun form => form cs

def chain : List Form → Form
  | [] => fun _ => some 0
  | form :: rest => fun cs => do
    let length ← form cs
    let more ← chain rest (cs.drop length)
    return length + more

end Form
end AnnotationScan
