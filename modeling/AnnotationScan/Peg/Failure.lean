/-!
# Failures of rules

A failure tells why a rule does not match and at which token this was seen, which may lie behind the
token where the rule was tried.  Nesting that is too deep is fatal: it says nothing about the input,
so no alternative may hide it.
-/

namespace AnnotationScan.Peg

/-- Why a rule does not match. -/
inductive Reason where
  | expected (what : String)
  /-- A token or construct stands where it must not. -/
  | unexpected (what : String)
  /-- A production that is not recognized on purpose. -/
  | notImplemented (production : String)
  /-- Recursive rules are nested deeper than is allowed. -/
  | depthLimit (limit : Nat)
deriving DecidableEq, Repr, Inhabited

namespace Reason

def message : Reason → String
  | .expected what => "expected " ++ what
  | .unexpected what => "unexpected " ++ what
  | .notImplemented production => production ++ " not implemented"
  | .depthLimit limit => s!"nesting deeper than {limit} levels"

def isFatal : Reason → Bool
  | .depthLimit _ => true
  | _ => false

/-- Whether the reason is a production that is left out on purpose. -/
def isNotImplemented : Reason → Bool
  | .notImplemented _ => true
  | _ => false

end Reason

/-- A reason, the index of the token where it was seen, and the offset of that token. -/
structure Failure where
  reason : Reason
  index : Nat
  offset : Nat
deriving DecidableEq, Repr, Inhabited

namespace Failure

def isFatal (failure : Failure) : Bool := failure.reason.isFatal

def message (failure : Failure) : String :=
  s!"{failure.reason.message} at byte {failure.offset}"

/-- Whether a failure tells more than the best one before it: it lies deeper, or equally deep and
only it names a production that is left out on purpose. -/
def outranks (failure best : Failure) : Bool :=
  best.index < failure.index ||
    (failure.index == best.index && failure.reason.isNotImplemented &&
      !best.reason.isNotImplemented)

/-- The deeper of two failures, the first one if they are equally deep. -/
def deeper (first second : Failure) : Failure :=
  if first.index < second.index then second else first

end Failure
end AnnotationScan.Peg
