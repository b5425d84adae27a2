import AnnotationScan.Peg.Cursor

/-!
# Sessions

A session is a cursor on which one step is taken after another: moving, saving and restoring places,
and applying rules.  What a parse has learnt stays with the cursor until it is cleared.
-/

namespace AnnotationScan.Peg

/-- A cursor, the places saved on it, and the recursive rules its rules refer to. -/
structure Session (κ : Type) where
  cursor : Cursor κ
  definitions : Definitions κ
  /-- The saved places, last saved first. -/
  saved : List (String × Nat)

namespace Session

variable {κ : Type}

/-- What is done on a session. -/
inductive Step (κ : Type) where
  | advance
  | save (name : String)
  | restore (name : String)
  /-- The span of the tokens since a saved place. -/
  | spanFrom (name : String)
  | moveTo (index : Nat)
  | maxDepth (limit : Nat)
  | traceLog
  /-- Take the events out of the trace log. -/
  | drainLog
  | fail (reason : Reason)
  | furthest
  | forgetFailure
  | forgetResults
  | dropDefinitions
  | parse (rule : Rule κ)

/-- What a step answers. -/
inductive Answer where
  | done
  | span (span : Span)
  | events (events : List Event)
  | outcome (outcome : Outcome)
  | failure (failure : Option Failure)
  | unknownPlace
deriving DecidableEq, Repr

/-- A session at the first token, which is saved as `start`. -/
def start (source : Source κ) (definitions : Definitions κ) (maxDepth : Nat) (log : Bool) :
    Session κ where
  cursor := { source, maxDepth, state := { log := if log then some [] else none } }
  definitions := definitions
  saved := [("start", 0)]

def place? (session : Session κ) (name : String) : Option Nat := session.saved.lookup name

def withCursor (session : Session κ) (cursor : Cursor κ) : Session κ := { session with cursor }

def take [DecidableEq κ] [Describe κ] (session : Session κ) : Step κ → Answer × Session κ
  | .advance =>
    let (span, cursor) := session.cursor.advance
    (.span span, session.withCursor cursor)
  | .save name =>
    (.done, { session with saved := (name, session.cursor.index) :: session.saved })
  | .restore name =>
    match session.place? name with
    | some index => (.done, session.withCursor { session.cursor with index })
    | none => (.unknownPlace, session)
  | .spanFrom name =>
    match session.place? name with
    | some index => (.span (session.cursor.spanFrom index), session)
    | none => (.unknownPlace, session)
  | .moveTo index => (.done, session.withCursor (session.cursor.moveTo index))
  | .maxDepth limit => (.done, session.withCursor (session.cursor.limitedTo limit))
  | .traceLog => (.done, session.withCursor session.cursor.logging)
  | .drainLog =>
    let (events, cursor) := session.cursor.drainLog
    (.events events, session.withCursor cursor)
  | .fail reason =>
    let (outcome, cursor) := session.cursor.fail reason
    (.outcome outcome, session.withCursor cursor)
  | .furthest => (.failure session.cursor.state.furthest, session)
  | .forgetFailure => (.done, session.withCursor session.cursor.forgetFailure)
  | .forgetResults => (.done, session.withCursor session.cursor.forgetResults)
  | .dropDefinitions => (.done, { session with definitions := session.definitions.dropped })
  | .parse rule =>
    let (outcome, cursor) := session.cursor.parse session.definitions rule
    (.outcome outcome, session.withCursor cursor)

end Session
end AnnotationScan.Peg
