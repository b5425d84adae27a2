import AnnotationScan.Token.List
import AnnotationScan.Token.Piece

/-!
# Tokens of a source text

Pieces become tokens: blanks and comments only mark the token behind them, an exclamation mark that
touches `in` or `is` and an `as` that touches a question mark are one token, and a fault is a token
as well as an entry in the list of faults.  The list of tokens closes with the mark of the end.
-/

namespace AnnotationScan

/-- The token that two touching tokens form together, if they form one. -/
def TokenKind.joined? : TokenKind → TokenKind → Option TokenKind
  | .bang, .inKeyword => some .notIn
  | .bang, .isKeyword => some .notIs
  | .asKeyword, .question => some .safeCast
  | _, _ => none

/-- The trivia that a piece leaves, if it is no token. -/
def Piece.trivia? (piece : Piece) : Option Trivia :=
  match piece.kind with
  | .blanks => some { blank := true }
  | .lineFeed => some { lineFeed := true }
  | .lineComment => some { comment := true }
  | .blockComment => some { comment := true, lineFeed := piece.text.contains '\n' }
  | .token _ | .fault _ => none

/-- The tokens and the faults of a text. -/
structure Tokenized where
  tokens : TokenList
  faults : Array Fault
deriving DecidableEq, Repr

namespace Tokenized

/-- A text read up to an offset. -/
structure Progress where
  tokens : Array Token := #[]
  faults : Array Fault := #[]
  offset : Nat := 0
  /-- The trivia since the last token. -/
  pending : Trivia := .empty

/-- Adds a token behind `before`, or joins it to the last token if the two touch and form one. -/
def addToken (tokens : Array Token) (kind : TokenKind) (span : Span) (before : Trivia) :
    Array Token :=
  match if before = .empty then tokens.back? else none with
  | some last =>
    match last.kind.joined? kind with
    | some whole => tokens.pop.push ⟨whole, last.span.merge span, last.before⟩
    | none => tokens.push ⟨kind, span, before⟩
  | none => tokens.push ⟨kind, span, before⟩

namespace Progress

/-- Reads one more piece. -/
def add : Progress → Piece → Progress
  | ⟨tokens, faults, offset, pending⟩, piece =>
    let stop := offset + piece.size
    let span : Span := ⟨offset, stop⟩
    match piece.kind with
    | .token kind => ⟨addToken tokens kind span pending, faults, stop, .empty⟩
    | .fault kind =>
      ⟨tokens.push ⟨.malformed, span, pending⟩, faults.push ⟨kind, span⟩, stop, .empty⟩
    | _ => ⟨tokens, faults, stop, pending.union (piece.trivia?.getD .empty)⟩

/-- The tokens read, closed by the mark of the end. -/
def closed (progress : Progress) : Array Token :=
  progress.tokens.push ⟨.endOfInput, Span.point progress.offset, progress.pending⟩

end Progress

/-- What a text reads as once its pieces are known. -/
def ofPieces (source : String) (pieces : Array Piece) : Tokenized :=
  let progress := pieces.foldl Progress.add {}
  ⟨⟨source, progress.closed⟩, progress.faults⟩

def ofSource (source : String) : Tokenized :=
  ofPieces source (Piece.ofText source.toList)

/-- The fault that starts at an offset. -/
def faultAt? (tokenized : Tokenized) (offset : Nat) : Option Fault :=
  tokenized.faults.find? fun fault => fault.span.start == offset

end Tokenized
end AnnotationScan
