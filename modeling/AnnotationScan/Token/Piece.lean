import AnnotationScan.Text.FirstByte
import AnnotationScan.Text.Letter
import AnnotationScan.Text.Slice
import AnnotationScan.Token.Comment
import AnnotationScan.Token.Fault
import AnnotationScan.Token.Kind
import AnnotationScan.Token.Number
import AnnotationScan.Token.StringLiteral

/-!
# Pieces of a source text

A source text is cut into pieces without gaps: blanks, line feeds, comments, raw tokens and faults.
Each piece is the longest beginning of the rest that belongs to a class; of classes that reach
equally far the earlier one is taken, so that a hard keyword is no identifier.  A character that no
class takes is a fault of its own.
-/

namespace AnnotationScan

/-- What a piece of text is. -/
inductive PieceKind where
  | blanks
  | lineFeed
  | lineComment
  | blockComment
  | token (kind : TokenKind)
  | fault (kind : FaultKind)
deriving DecidableEq, Repr, Inhabited

/-- A stretch of text and what it is. -/
structure Piece where
  kind : PieceKind
  text : List Char
deriving DecidableEq, Repr, Inhabited

namespace Piece

/-- What the beginning of a text is, and the number of characters that belong to it. -/
abbrev Reader := List Char → Option (PieceKind × Nat)

def ofForm (kind : PieceKind) (form : Form) : Reader :=
  fun cs => (form cs).map fun length => (kind, length)

/-- A blank that does not end the line. -/
def isInlineBlank (c : Char) : Bool :=
  c = ' ' || c = '\t' || c = '\r' || c = '\x0c'

/-- A character that may begin an identifier. -/
def isWordStart (c : Char) : Bool :=
  c = '_' || Text.isLetter c

/-- A character that may stand in an identifier behind the first one. -/
def isWordPart (c : Char) : Bool :=
  isWordStart c || Text.isDecimalDigit c

/-- Whether the first byte of a character may begin a further character of an identifier. -/
def opensWordPart (c : Char) : Bool :=
  isWordPart c ||
    (128 ≤ c.toNat && (Text.CodeRange.sharesFirstByte Text.letterRanges c ||
      Text.CodeRange.sharesFirstByte Text.digitRanges c))

/-- A character that may stand between back quotes. -/
def isQuotedPart (c : Char) : Bool :=
  c != '`' && c != '\r' && c != '\n'

/-- An identifier between back quotes. -/
def quotedWord : Form :=
  Form.chain [Form.one (· = '`'), Form.one isQuotedPart, Form.many isQuotedPart,
    Form.one (· = '`')]

/-- A back quote that is not closed; it takes along what it would have quoted. -/
def openQuote : Form :=
  Form.chain [Form.one (· = '`'), Form.many isQuotedPart]

/-- A block comment, or the rest of the text if the comment is not closed. -/
def blockComment : Reader
  | '/' :: '*' :: cs =>
    match Form.blockCommentBody cs with
    | some length => some (.blockComment, 2 + length)
    | none => some (.fault .unterminatedComment, 2 + cs.length)
  | _ => none

/-- A string literal, or the rest of the line if the literal is not closed. -/
def stringLiteral : Reader
  | '"' :: cs =>
    match Form.stringBody cs with
    | .ok length => some (.token .stringLiteral, 1 + length)
    | .error length => some (.fault .unterminatedString, 1 + length)
  | _ => none

/-- A raw string literal, or the rest of the text if the literal is not closed. -/
def rawStringLiteral : Reader
  | '"' :: '"' :: '"' :: cs =>
    match Form.rawStringBody cs with
    | some length => some (.token .rawStringLiteral, 3 + length)
    | none => some (.fault .unterminatedRawString, 3 + cs.length)
  | _ => none

def spelled (kind : TokenKind) : Reader :=
  ofForm (.token kind) (Form.literal (kind.spelling?.getD "").toList)

/-- Reads a hard keyword.  The word must be over at the byte behind it: where that byte may begin a
further letter or digit the word is an identifier, whatever character it begins. -/
def keyword (kind : TokenKind) : Reader :=
  fun cs => (spelled kind cs).filter fun reading => !(cs[reading.2]?).any opensWordPart

/-- The classes of pieces. -/
def readers : List Reader :=
  [ofForm .blanks (Form.chain [Form.one isInlineBlank, Form.many isInlineBlank]),
    ofForm .lineFeed (Form.one (· = '\n')),
    ofForm .lineComment Form.lineComment,
    blockComment] ++
  TokenKind.hardKeywords.map keyword ++
  [ofForm (.token .identifier) (Form.chain [Form.one isWordStart, Form.many isWordPart]),
    ofForm (.token .identifier) quotedWord] ++
  Form.integers.map (ofForm (.token .integerLiteral)) ++
  Form.floats.map (ofForm (.token .floatLiteral)) ++
  [ofForm (.token .characterLiteral) Form.character,
    stringLiteral,
    rawStringLiteral] ++
  TokenKind.signs.map spelled ++
  [ofForm (.fault .unexpectedCharacter) openQuote]

/-- The longer of two readings, the earlier one if they are equally long. -/
def longer (best next : Option (PieceKind × Nat)) : Option (PieceKind × Nat) :=
  match best, next with
  | some (_, length), some (_, more) => if length < more then next else best
  | none, _ => next
  | _, none => best

/-- The longest reading of the beginning of a text. -/
def longest (cs : List Char) : PieceKind × Nat :=
  (readers.foldl (fun best reader => longer best (reader cs)) none).getD
    (.fault .unexpectedCharacter, 1)

/-- The piece that a text begins with. -/
def atStart (cs : List Char) : Piece :=
  let reading := longest cs
  ⟨reading.1, cs.take reading.2⟩

/-- The pieces of a text behind the pieces `found`.  `skipped` characters at its start belong to the
last piece found. -/
def cut : List Char → (skipped : Nat) → (found : Array Piece) → Array Piece
  | [], _, found => found
  | _ :: cs, skipped + 1, found => cut cs skipped found
  | c :: cs, 0, found =>
    let piece := atStart (c :: cs)
    cut cs (piece.text.length - 1) (found.push piece)

def ofText (cs : List Char) : Array Piece :=
  cut cs 0 #[]

def size (piece : Piece) : Nat := Text.byteLength piece.text

end Piece
end AnnotationScan
