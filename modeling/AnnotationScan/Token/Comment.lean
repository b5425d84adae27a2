import AnnotationScan.Token.Form

/-!
# Comments

A line comment ends before the line feed.  Block comments nest: every opening inside a comment asks
for a closing of its own.  Openings and closings are read from left to right, so the star of an
opening does not begin a closing.
-/

namespace AnnotationScan.Form

def lineComment : Form :=
  chain [literal ['/', '/'], many (· != '\n')]

/-- The length of a text up to the closing of the comment it lies in.  `inner` counts the comments
that are open inside that one, and `read` the characters before the text. -/
def closing? : (inner : Nat) → List Char → (read : Nat) → Option Nat
  | inner, '/' :: '*' :: cs, read => closing? (inner + 1) cs (read + 2)
  | 0, '*' :: '/' :: _, read => some (read + 2)
  | inner + 1, '*' :: '/' :: cs, read => closing? inner cs (read + 2)
  | inner, _ :: cs, read => closing? inner cs (read + 1)
  | _, [], _ => none

/-- The rest of a block comment behind its opening. -/
def blockCommentBody : Form :=
  fun cs => closing? 0 cs 0

end AnnotationScan.Form
