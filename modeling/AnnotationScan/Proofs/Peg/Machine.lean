import AnnotationScan.Proofs.Peg.Placement

/-!
# Parsing step by step

A parse as a machine: one head that moves over the tokens, and a stack of what is still to be done
with the outcome of the rule that is being applied.  Every change of the head is made when it happens
and has to be undone explicitly.  Neither repetition nor recursion is counted in advance: the loop of
a repetition goes on until it does not match or does not move on, and recursive rules stop at the
limit on nesting, which is compared with the depth of the head.
-/

namespace AnnotationScan.Peg

variable {κ : Type}

/-- The head of a parse, which every rule works on. -/
structure Head (κ : Type) where
  source : Source κ
  index : Nat
  depth : Nat
  maxDepth : Nat
  newlines : Bool
  /-- The number of negative lookaheads around the place. -/
  quiet : Nat
  state : State

namespace Head

def ofCursor (cursor : Cursor κ) : Head κ where
  source := cursor.source
  index := cursor.index
  depth := cursor.depth
  maxDepth := cursor.maxDepth
  newlines := cursor.mode.newlines
  quiet := if cursor.mode.quiet then 1 else 0
  state := cursor.state

variable (head : Head κ)

def mode : Mode where
  newlines := head.newlines
  quiet := 0 < head.quiet

def cursor : Cursor κ where
  source := head.source
  index := head.index
  depth := head.depth
  maxDepth := head.maxDepth
  mode := head.mode
  state := head.state

def follow (cursor : Cursor κ) : Head κ :=
  { head with index := cursor.index, state := cursor.state }

theorem cursor_ofCursor (cursor : Cursor κ) : (ofCursor cursor).cursor = cursor := by
  obtain ⟨source, index, depth, maxDepth, ⟨newlines, quiet⟩, state⟩ := cursor
  cases quiet <;> rfl

end Head

/-- What is to be done with the outcome of a rule. -/
inductive Frame (κ : Type) where
  /-- Go back to where the rule started if it does not match. -/
  | goBack (start : Nat)
  /-- Go on with the second one of two rules. -/
  | thenParse (start : Nat) (second : Rule κ)
  | together (start : Nat)
  /-- Go on with another alternative if the first one does not match. -/
  | otherwise (second : Rule κ)
  | deeper (failure : Failure)
  | optional (start : Nat)
  /-- Go on with the next round of a repetition.  This one started at `before`, and `made` counts
  the rounds from `start` on, this one included. -/
  | rounds (start before made : Nat) (part : Rule κ)
  | ahead (start : Nat)
  | notAhead (start : Nat)
  /-- Let line breaks count as they did before. -/
  | newlines (before : Bool)
  | endPoint
  | traced (name : String) (depth offset : Nat)
  /-- Leave a recursive rule, and keep its result. -/
  | call (key : Application)

def Frame.isCall : Frame κ → Bool
  | .call _ => true
  | _ => false

/-- What a parse does next. -/
inductive Task (κ : Type) where
  | parse (rule : Rule κ)
  | run (rule : Rule κ)
  /-- Give the outcome to the topmost frame. -/
  | answer (outcome : Outcome)

structure Machine (κ : Type) where
  task : Task κ
  head : Head κ
  frames : List (Frame κ)

namespace Machine

variable (head : Head κ) (frames : List (Frame κ))

def start (rule : Rule κ) (cursor : Cursor κ) : Machine κ := ⟨.parse rule, .ofCursor cursor, []⟩

def accept : Machine κ :=
  let next := head.source.next head.index
  ⟨.answer (.matched (head.source.lexeme head.index).span next), { head with index := next }, frames⟩

def stay : Machine κ :=
  ⟨.answer (.matched (Span.point (head.source.offset head.index)) head.index), head, frames⟩

/-- A match of the tokens from `start` up to the head. -/
def reach (start : Nat) : Machine κ :=
  ⟨.answer (.matched (head.source.spanFrom start head.index) head.index), head, frames⟩

def fail (reason : Reason) : Machine κ :=
  let (outcome, state) := head.source.fail reason head.mode head.index head.state
  ⟨.answer outcome, { head with state }, frames⟩

variable [DecidableEq κ] [Describe κ]

def begin (definitions : Definitions κ) : Rule κ → Machine κ
  | .token kind =>
    if (head.source.lexeme head.index).kind = kind then accept head frames
    else fail head frames (.expected (Describe.describe kind))
  | .word =>
    if (head.source.lexeme head.index).isWord then accept head frames
    else fail head frames (.expected "identifier")
  | .keyword text =>
    let lexeme := head.source.lexeme head.index
    if lexeme.isWord && lexeme.text == text then accept head frames
    else fail head frames (.expected ("`" ++ text ++ "`"))
  | .nothing => stay head frames
  | .andThen first second => ⟨.parse first, head, .thenParse head.index second :: frames⟩
  | .orElse first second => ⟨.parse first, head, .otherwise second :: frames⟩
  | .optional part => ⟨.parse part, head, .optional head.index :: frames⟩
  | .many part => ⟨.parse part, head, .rounds head.index head.index 1 part :: frames⟩
  | .ahead part => ⟨.parse part, head, .ahead head.index :: frames⟩
  | .notAhead part =>
    ⟨.parse part, { head with quiet := head.quiet + 1 }, .notAhead head.index :: frames⟩
  | .lineBreak =>
    if head.newlines && (head.source.lexeme head.index).newlineBefore then stay head frames
    else fail head frames (.expected "line break")
  | .newlines count part =>
    ⟨.parse part, { head with newlines := count }, .newlines head.newlines :: frames⟩
  | .fail reason => fail head frames reason
  | .any => accept head frames
  | .failNext reason => fail { head with index := head.source.next head.index } frames reason
  | .endPoint part => ⟨.parse part, head, .endPoint :: frames⟩
  | .traced name part =>
    ⟨.parse part, head, .traced name head.depth (head.source.offset head.index) :: frames⟩
  | .ref rule =>
    let key : Application := ⟨definitions.scope, rule, head.index, head.mode⟩
    match head.state.memo[key]? with
    | some outcome =>
      ⟨.answer outcome, { head with index := outcome.stop?.getD head.index }, frames⟩
    | none =>
      match definitions.body? rule with
      | none => ⟨.answer (.aborted (.undefinedRule (definitions.name rule))), head, frames⟩
      | some body =>
        if head.maxDepth ≤ head.depth then fail head frames (.depthLimit head.maxDepth)
        else ⟨.run body, { head with depth := head.depth + 1 }, .call key :: frames⟩

/-- A step that gives an outcome to a frame. -/
def resume (outcome : Outcome) : Frame κ → Machine κ
  | .goBack start =>
    match outcome with
    | .matched _ _ => ⟨.answer outcome, head, frames⟩
    | _ => ⟨.answer outcome, { head with index := start }, frames⟩
  | .thenParse start second =>
    match outcome with
    | .matched _ _ => ⟨.parse second, head, .together start :: frames⟩
    | _ => ⟨.answer outcome, { head with index := start }, frames⟩
  | .together start =>
    match outcome with
    | .matched _ _ => reach head frames start
    | _ => ⟨.answer outcome, { head with index := start }, frames⟩
  | .otherwise second =>
    match outcome with
    | .failed failure => ⟨.parse second, head, .deeper failure :: frames⟩
    | _ => ⟨.answer outcome, head, frames⟩
  | .deeper failure =>
    match outcome with
    | .failed failure' => ⟨.answer (.failed (failure.deeper failure')), head, frames⟩
    | _ => ⟨.answer outcome, head, frames⟩
  | .optional start =>
    match outcome with
    | .aborted _ => ⟨.answer outcome, head, frames⟩
    | _ => reach head frames start
  | .rounds start before made part =>
    match outcome with
    | .matched _ _ =>
      if head.index = before then reach head frames start
      else ⟨.parse part, head, .rounds start head.index (made + 1) part :: frames⟩
    | .failed _ => reach head frames start
    | .aborted _ => ⟨.answer outcome, { head with index := start }, frames⟩
  | .ahead start =>
    match outcome with
    | .matched _ _ => stay { head with index := start } frames
    | _ => ⟨.answer outcome, head, frames⟩
  | .notAhead start =>
    let head := { head with quiet := head.quiet - 1 }
    match outcome with
    | .matched _ _ =>
      fail { head with index := start } frames
        (.unexpected (Describe.describe (head.source.lexeme start).kind))
    | .failed _ => stay head frames
    | .aborted _ => ⟨.answer outcome, head, frames⟩
  | .newlines before => ⟨.answer outcome, { head with newlines := before }, frames⟩
  | .endPoint =>
    match outcome with
    | .matched value stop => ⟨.answer (.matched (Span.point value.stop) stop), head, frames⟩
    | _ => ⟨.answer outcome, head, frames⟩
  | .traced name depth offset =>
    let stop :=
      match outcome with
      | .matched _ _ => some (head.source.offset head.index)
      | _ => none
    ⟨.answer outcome, { head with state := head.state.observe ⟨name, depth, offset, stop⟩ }, frames⟩
  | .call key =>
    ⟨.answer outcome,
      { head with depth := head.depth - 1, state := head.state.remember key outcome }, frames⟩

/-- One step of a parse; a parse that has come to its end stays there. -/
def step (definitions : Definitions κ) : Machine κ → Machine κ
  | ⟨.parse rule, head, frames⟩ => ⟨.run rule, head, .goBack head.index :: frames⟩
  | ⟨.run rule, head, frames⟩ => begin head frames definitions rule
  | ⟨.answer outcome, head, []⟩ => ⟨.answer outcome, head, []⟩
  | ⟨.answer outcome, head, frame :: frames⟩ => resume head frames outcome frame

def after (definitions : Definitions κ) (machine : Machine κ) : (steps : Nat) → Machine κ
  | 0 => machine
  | steps + 1 => after definitions (step definitions machine) steps

omit [DecidableEq κ] [Describe κ] in
/-- What has come of a parse, if it has come to its end. -/
def result? : Machine κ → Option (Outcome × Head κ)
  | ⟨.answer outcome, head, []⟩ => some (outcome, head)
  | _ => none

end Machine
end AnnotationScan.Peg
