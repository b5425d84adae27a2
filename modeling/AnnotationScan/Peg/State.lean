import Std.Data.TreeMap
import AnnotationScan.Peg.Failure
import AnnotationScan.Span

/-!
# What a parse carries along

Rules are applied under a mode and pass on a ledger.  The mode is what surrounds a rule: whether
line breaks count, and whether failures are expected and therefore no diagnostics.  A ledger is
whatever keeps the failures and the traced applications.  The ledger of a cursor is its state, which
is what the parse has learnt: the failure that tells most, the results of recursive rules, and the
trace log.
-/

namespace AnnotationScan.Peg

/-- What surrounds a rule. -/
structure Mode where
  /-- Whether line breaks count. -/
  newlines : Bool := true
  /-- Whether failures are kept out of the diagnostics. -/
  quiet : Bool := false
deriving DecidableEq, Repr, Inhabited

/-- Why a parse stops at once. -/
inductive Abort where
  | fatal (failure : Failure)
  | undefinedRule (name : String)
deriving DecidableEq, Repr, Inhabited

def Abort.message : Abort → String
  | .fatal failure => failure.message
  | .undefinedRule name =>
    "recursive rule `" ++ name ++ "` is not defined (or its definitions were dropped)"

/-- What comes of applying a rule. -/
inductive Outcome where
  /-- The rule matches up to the token `stop`. -/
  | matched (value : Span) (stop : Nat)
  /-- The rule does not match; the token stays where it is. -/
  | failed (failure : Failure)
  /-- The whole parse stops. -/
  | aborted (cause : Abort)
deriving DecidableEq, Repr, Inhabited

/-- The outcome of a rule that does not match. -/
def Outcome.ofFailure (failure : Failure) : Outcome :=
  if failure.isFatal then .aborted (.fatal failure) else .failed failure

def Outcome.stop? : Outcome → Option Nat
  | .matched _ stop => some stop
  | _ => none

/-- The failure of a rule that does not match, be it fatal. -/
def Outcome.failure? : Outcome → Option Failure
  | .failed failure | .aborted (.fatal failure) => some failure
  | _ => none

/-- An application of a traced rule. -/
structure Event where
  rule : String
  /-- The number of recursive rules around the application. -/
  depth : Nat
  /-- The offset of the token where the rule was applied. -/
  offset : Nat
  /-- The offset of the token behind the match, if the rule matched. -/
  stop : Option Nat
deriving DecidableEq, Repr, Inhabited

/-- For every rule among the events, in the order of their first appearance, how often it matched
and how often it did not. -/
def Event.counts (events : List Event) : List (String × Nat × Nat) :=
  let names := events.foldl (fun names event => names.insert event.rule) []
  names.reverse.map fun name =>
    let own := events.filter (·.rule == name)
    (name, own.countP (·.stop.isSome), own.countP (·.stop.isNone))

/-- A recursive rule applied at a token in a mode. -/
structure Application where
  scope : Nat
  rule : Nat
  index : Nat
  mode : Mode
deriving DecidableEq, Repr, Inhabited

/-- The order of keys in the memo: by token first, then by rule and mode. -/
def Application.compare : Application → Application → Ordering :=
  compareLex (compareOn Application.index)
    (compareLex (compareOn Application.rule)
      (compareLex (compareOn Application.scope)
        (compareLex (compareOn (·.mode.newlines)) (compareOn (·.mode.quiet)))))

instance : Std.TransCmp Application.compare :=
  inferInstanceAs (Std.TransCmp (compareLex _ _))

instance : Std.LawfulEqCmp Application.compare where
  eq_of_compare {a b} h := by
    obtain ⟨scope, rule, index, newlines, quiet⟩ := a
    obtain ⟨scope', rule', index', newlines', quiet'⟩ := b
    simp only [Application.compare, compareLex, compareOn, Ordering.then_eq_eq,
      Std.LawfulEqOrd.compare_eq_iff_eq] at h
    obtain ⟨rfl, rfl, rfl, rfl, rfl⟩ := h
    rfl

/-- The results of recursive rules. -/
abbrev Memo := Std.TreeMap Application Outcome Application.compare

structure State where
  /-- The failure that tells most. -/
  furthest : Option Failure := none
  memo : Memo := ∅
  /-- The traced applications, newest first, if they are recorded. -/
  log : Option (List Event) := none

namespace State

/-- Keeps a failure if it tells more than those before it. -/
def note (state : State) (failure : Failure) : State :=
  match state.furthest with
  | none => { state with furthest := some failure }
  | some best =>
    if failure.outranks best then { state with furthest := some failure } else state

/-- Adds a traced application to the log, if there is one. -/
def observe (state : State) (event : Event) : State :=
  { state with log := state.log.map (event :: ·) }

/-- Stores the result of a recursive rule.  What ended the parse is not a result of the rule. -/
def remember (state : State) (key : Application) : Outcome → State
  | .aborted _ => state
  | outcome => { state with memo := state.memo.insert key outcome }

end State

/-- What keeps the failures and the traced applications of a parse. -/
class Ledger (σ : Type) where
  note : σ → Failure → σ
  observe : σ → Event → σ

instance : Ledger State := ⟨State.note, State.observe⟩

/-- The effect of a rule at a token. -/
abbrev Matcher (σ : Type) := Mode → Nat → σ → Outcome × σ

end AnnotationScan.Peg
