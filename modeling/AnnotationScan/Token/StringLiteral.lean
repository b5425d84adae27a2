import AnnotationScan.Token.Form

/-!
# String literals

A string literal stays on its line.  It may hold templates `${...}`, which nest with braces and with
further strings; inside a string a backslash takes the next character with it.  A raw string ends at
three quotes and may hold everything else; quotes that follow the three belong to it.
-/

namespace AnnotationScan.Form

/-- Where a scan of a string literal is. -/
inductive StringPlace where
  /-- In the text of a string; `outer` are the templates around it, innermost first, each with the
  number of braces open in it. -/
  | text (outer : List Nat)
  /-- In a template with some open braces, inside the templates `outer`. -/
  | template (braces : Nat) (outer : List Nat)
deriving DecidableEq, Repr, Inhabited

/-- The length of a string body with its closing quote, or, for a body that is cut off, the length
of the line.  `read` counts the characters before the text. -/
def stringEnd : StringPlace → List Char → (read : Nat) → Except Nat Nat
  | .text [], '"' :: _, read => .ok (read + 1)
  | .text (braces :: outer), '"' :: cs, read => stringEnd (.template braces outer) cs (read + 1)
  | .text outer, '$' :: '{' :: cs, read => stringEnd (.template 0 outer) cs (read + 2)
  | .text outer, '\\' :: c :: cs, read =>
    if c = '\n' then .error (read + 1) else stringEnd (.text outer) cs (read + 2)
  | .template braces outer, '{' :: cs, read =>
    stringEnd (.template (braces + 1) outer) cs (read + 1)
  | .template 0 outer, '}' :: cs, read => stringEnd (.text outer) cs (read + 1)
  | .template (braces + 1) outer, '}' :: cs, read =>
    stringEnd (.template braces outer) cs (read + 1)
  | .template braces outer, '"' :: cs, read => stringEnd (.text (braces :: outer)) cs (read + 1)
  | place, c :: cs, read => if c = '\n' then .error read else stringEnd place cs (read + 1)
  | _, [], read => .error read

/-- The body of a string literal behind its opening quote. -/
def stringBody (cs : List Char) : Except Nat Nat :=
  stringEnd (.text []) cs 0

/-- The length of a raw string behind its opening quotes, closing quotes included. -/
def rawStringEnd : List Char → (read : Nat) → Option Nat
  | '"' :: '"' :: '"' :: cs, read => some (read + 3 + (cs.takeWhile (· = '"')).length)
  | _ :: cs, read => rawStringEnd cs (read + 1)
  | [], _ => none

/-- The body of a raw string behind its opening quotes. -/
def rawStringBody : Form :=
  fun cs => rawStringEnd cs 0

end AnnotationScan.Form
