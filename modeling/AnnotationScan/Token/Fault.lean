import AnnotationScan.Span

/-!
# Faults of the source text

Text that forms no token does not stop the tokenizer: it becomes a token of its own and a fault that
tells what is wrong and where.
-/

namespace AnnotationScan

inductive FaultKind where
  | unexpectedCharacter
  | unterminatedString
  | unterminatedRawString
  | unterminatedComment
deriving DecidableEq, Repr, Inhabited

def FaultKind.message : FaultKind → String
  | .unexpectedCharacter => "unexpected character"
  | .unterminatedString => "unterminated string literal"
  | .unterminatedRawString => "unterminated raw string literal"
  | .unterminatedComment => "unterminated block comment"

structure Fault where
  kind : FaultKind
  span : Span
deriving DecidableEq, Repr, Inhabited

def Fault.message (fault : Fault) : String :=
  s!"{fault.kind.message} at {fault.span.render}"

end AnnotationScan
