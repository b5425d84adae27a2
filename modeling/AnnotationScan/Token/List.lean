import AnnotationScan.Span
import AnnotationScan.Text.Slice
import AnnotationScan.Token.Kind

/-!
# Tokens and token lists

A token is a kind with a span; blanks, line feeds and comments are no tokens but leave a mark on
the token after them.  A token list keeps its tokens together with the text they were read from, so
that the text of a token is found from its span.
-/

namespace AnnotationScan

/-- What stands between a token and the token before it. -/
structure Trivia where
  /-- A blank other than a line feed. -/
  blank : Bool := false
  /-- A line feed, be it inside a comment. -/
  lineFeed : Bool := false
  comment : Bool := false
deriving DecidableEq, Repr, Inhabited

namespace Trivia

/-- Nothing: the token touches the one before it. -/
def empty : Trivia := {}

/-- What two stretches hold together. -/
def union (a b : Trivia) : Trivia where
  blank := a.blank || b.blank
  lineFeed := a.lineFeed || b.lineFeed
  comment := a.comment || b.comment

/-- The marks as a number: 1 for a blank, 2 for a line feed, 4 for a comment. -/
def toBits (trivia : Trivia) : Nat :=
  trivia.blank.toNat + 2 * trivia.lineFeed.toNat + 4 * trivia.comment.toNat

/-- The marks in the three lowest bits of a number. -/
def ofBits (bits : Nat) : Trivia where
  blank := bits.testBit 0
  lineFeed := bits.testBit 1
  comment := bits.testBit 2

theorem ofBits_toBits (trivia : Trivia) : ofBits trivia.toBits = trivia := by
  obtain ⟨_ | _, _ | _, _ | _⟩ := trivia <;> rfl

end Trivia

structure Token where
  kind : TokenKind
  span : Span
  before : Trivia
deriving DecidableEq, Repr, Inhabited

/-- Tokens in the order they were added, and the text their spans refer to. -/
structure TokenList where
  source : String
  tokens : Array Token := #[]
deriving DecidableEq, Repr

namespace TokenList

def empty (source : String) : TokenList := { source }

def push (list : TokenList) (token : Token) : TokenList :=
  { list with tokens := list.tokens.push token }

def pop (list : TokenList) : Option Token × TokenList :=
  (list.tokens.back?, { list with tokens := list.tokens.pop })

def size (list : TokenList) : Nat := list.tokens.size

def isEmpty (list : TokenList) : Bool := list.tokens.isEmpty

def get? (list : TokenList) (index : Nat) : Option Token := list.tokens[index]?

/-- The part of the source under a span; nothing if the span is no slice of it. -/
def textAt (list : TokenList) (span : Span) : String :=
  (Text.slice? list.source span.start span.stop).getD ""

def text (list : TokenList) (index : Nat) : String :=
  match list.get? index with
  | some token => list.textAt token.span
  | none => ""

/-- The place where an array changes from tokens with `holds` to tokens without it, by halves:
`size` tokens from `first` on are still in question, and each step keeps the half in which the
change lies.  There are never more steps than tokens. -/
def changeWithin (holds : Token → Bool) (tokens : Array Token) :
    (steps first size : Nat) → Nat
  | 0, first, _ => first
  | steps + 1, first, size =>
    if 1 < size then
      let half := size / 2
      let middle := first + half
      changeWithin holds tokens steps (if (tokens[middle]?).any holds then middle else first)
        (size - half)
    else if (tokens[first]?).any holds then first + 1 else first

/-- The index of the first token that starts at or after an offset, or of the end. -/
def firstAtOrAfter (list : TokenList) (offset : Nat) : Nat :=
  changeWithin (fun token => token.span.start < offset && token.kind != .endOfInput)
    list.tokens list.size 0 list.size

@[simp] theorem size_empty (source : String) : (empty source).size = 0 := rfl

@[simp] theorem size_push (list : TokenList) (token : Token) :
    (list.push token).size = list.size + 1 := by
  simp [size, push]

@[simp] theorem get?_push_size (list : TokenList) (token : Token) :
    (list.push token).get? list.size = some token := by
  simp [get?, push, size]

end TokenList
end AnnotationScan
