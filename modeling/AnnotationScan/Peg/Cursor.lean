import AnnotationScan.Peg.Run

/-!
# Cursors

A cursor is a place in a source together with everything that parses from there depend on: the
limit on nesting, the mode, and what earlier parses have learnt.
-/

namespace AnnotationScan.Peg

/-- The limit on nested recursive rules unless another one is asked for. -/
def defaultDepth : Nat := 512

/-- A place in a source and the circumstances of parses there. -/
structure Cursor (κ : Type) where
  source : Source κ
  index : Nat := 0
  /-- The number of recursive rules around the place. -/
  depth : Nat := 0
  maxDepth : Nat := defaultDepth
  mode : Mode := {}
  state : State := {}

namespace Cursor

variable {κ : Type} (cursor : Cursor κ)

def lexeme : Lexeme κ := cursor.source.lexeme cursor.index

def offset : Nat := cursor.source.offset cursor.index

def atMarker : Bool := cursor.index == cursor.source.last

def moveTo (index : Nat) : Cursor κ := { cursor with index := min index cursor.source.last }

/-- Takes the token at the cursor: its span, and the cursor behind it. -/
def advance : Span × Cursor κ :=
  (cursor.lexeme.span, { cursor with index := cursor.source.next cursor.index })

/-- The span of the tokens from `start` up to the cursor. -/
def spanFrom (start : Nat) : Span := cursor.source.spanFrom start cursor.index

def limitedTo (limit : Nat) : Cursor κ := { cursor with maxDepth := limit }

def logging : Cursor κ :=
  { cursor with state := { cursor.state with log := some [] } }

/-- The events of the trace log in order, and the cursor with the log emptied. -/
def drainLog : List Event × Cursor κ :=
  ((cursor.state.log.getD []).reverse,
    { cursor with state := { cursor.state with log := cursor.state.log.map fun _ => [] } })

def fail (reason : Reason) : Outcome × Cursor κ :=
  let (outcome, state) := cursor.source.fail reason cursor.mode cursor.index cursor.state
  (outcome, { cursor with state })

def forgetFailure : Cursor κ :=
  { cursor with state := { cursor.state with furthest := none } }

def forgetResults : Cursor κ :=
  { cursor with state := { cursor.state with memo := ∅ } }

/-- Applies a rule at the cursor.  The cursor moves behind a match and stays otherwise. -/
def parse [DecidableEq κ] [Describe κ] (definitions : Definitions κ) (rule : Rule κ) :
    Outcome × Cursor κ :=
  let levels := cursor.maxDepth - cursor.depth
  let (outcome, state) :=
    rule.run cursor.source cursor.depth
      (definitions.invoke cursor.source cursor.maxDepth levels)
      cursor.mode cursor.index cursor.state
  (outcome, { cursor with index := outcome.stop?.getD cursor.index, state })

end Cursor
end AnnotationScan.Peg
