import AnnotationScan.Grammar.Recognizer
import AnnotationScan.Token.Tokenized

/-!
# Scanning source text

Where the annotation that starts here ends: the text is cut into tokens and the grammar is applied.
A fault of the text is reported only where the grammar got stuck on it, and then in place of the
failure, since the grammar cannot tell what the faulty text was meant to be.
-/

namespace AnnotationScan

open Peg

/-- What a scan for an annotation finds. -/
inductive Verdict where
  /-- An annotation over `span`; the next token, or the end of the text, is at `stop`. -/
  | matched (span : Span) (stop : Nat)
  | rejected (reason : Reason) (offset : Nat)
  /-- A fault that the grammar got stuck on. -/
  | malformed (fault : Fault)
deriving DecidableEq, Repr

/-- The annotations of the file in front of a script, and where its body starts. -/
structure Preamble where
  annotations : Array Span
  bodyOffset : Nat
deriving DecidableEq, Repr

namespace Tokenized

/-- The fault that a failure got stuck on. -/
def faultBehind? (tokenized : Tokenized) (failure : Failure) : Option Fault :=
  match tokenized.tokens.get? failure.index with
  | some token => if token.kind = .malformed then tokenized.faultAt? token.span.start else none
  | none => none

/-- What the answer of the grammar says about the text. -/
def verdict (tokenized : Tokenized) : Except Failure Recognized → Verdict
  | .ok ⟨span, stop⟩ =>
    .matched span ((tokenized.tokens.get? stop).elim span.stop (·.span.start))
  | .error failure =>
    match tokenized.faultBehind? failure with
    | some fault => .malformed fault
    | none => .rejected failure.reason failure.offset

end Tokenized

namespace Recognizer

variable (grammar : Recognizer)

/-- Scans for an annotation at the first token that starts at or after an offset. -/
def scanAt (source : String) (offset : Nat) : Verdict :=
  let tokenized := Tokenized.ofSource source
  tokenized.verdict (grammar.recognizeAt tokenized.tokens (tokenized.tokens.firstAtOrAfter offset))

def scan (source : String) : Verdict := grammar.scanAt source 0

def scanFile (source : String) : Verdict :=
  let tokenized := Tokenized.ofSource source
  tokenized.verdict (grammar.recognize .file (grammar.cursor tokenized.tokens)).1

/-- Takes annotations of the file from a cursor on, behind those `found`.  Each of them takes a
token, so there are never more of them than `rounds`, the number of tokens left.  A fault counts
only if it is met behind the first token of an attempt. -/
def preambleFrom (tokenized : Tokenized) :
    (rounds : Nat) → Cursor TokenKind → (found : Array Span) → Except Fault Preamble
  | 0, cursor, found => .ok ⟨found, cursor.offset⟩
  | rounds + 1, cursor, found =>
    match grammar.recognize .file cursor with
    | (.ok recognized, after) => preambleFrom tokenized rounds after (found.push recognized.span)
    | (.error failure, _) =>
      match if cursor.index < failure.index then tokenized.faultBehind? failure else none with
      | some fault => .error fault
      | none => .ok ⟨found, cursor.offset⟩

/-- The annotations of the file at the start of a script. -/
def preamble (source : String) : Except Fault Preamble :=
  let tokenized := Tokenized.ofSource source
  grammar.preambleFrom tokenized (tokenized.tokens.size + 1) (grammar.cursor tokenized.tokens) #[]

end Recognizer
end AnnotationScan
