import AnnotationScan.Peg.Source
import AnnotationScan.Text.WhiteSpace

/-!
# Words and signs

The plainest source of tokens: every run of ASCII letters is a word, every other character that is
no white space is a sign of its own kind, and a NUL marks the end.
-/

namespace AnnotationScan.Peg

instance : Describe Char where
  describe c := String.ofList ['`', c, '`']

namespace Words

def wordKind : Char := 'w'

def endKind : Char := '\x00'

/-- A text read up to an offset. -/
structure Progress where
  lexemes : Array (Lexeme Char) := #[]
  offset : Nat := 0
  /-- The letters of the word that is being read, last letter first. -/
  word : List Char := []
  /-- Whether a line break was read since the last token. -/
  newline : Bool := false

namespace Progress

def addToken (progress : Progress) (kind : Char) (text : List Char) : Progress :=
  let text := String.ofList text
  { progress with
    lexemes := progress.lexemes.push
      { kind, text
        span := ⟨progress.offset - text.utf8ByteSize, progress.offset⟩
        isWord := kind == wordKind
        newlineBefore := progress.newline }
    newline := false }

def endWord (progress : Progress) : Progress :=
  if progress.word.isEmpty then progress
  else { progress.addToken wordKind progress.word.reverse with word := [] }

def add (progress : Progress) (c : Char) : Progress :=
  let offset := progress.offset + c.utf8Size
  if c.isAlpha then { progress with offset, word := c :: progress.word }
  else
    let progress := progress.endWord
    let progress := { progress with offset }
    if c = '\n' then { progress with newline := true }
    else if Text.isWhiteSpace c then progress
    else progress.addToken c [c]

end Progress
end Words

/-- The words and signs of a text. -/
def Source.ofWords (text : String) : Source Char :=
  let progress := (text.toList.foldl Words.Progress.add {}).endWord
  { body := progress.lexemes
    marker :=
      { kind := Words.endKind
        span := Span.point progress.offset
        text := ""
        isWord := false
        newlineBefore := progress.newline } }

end AnnotationScan.Peg
