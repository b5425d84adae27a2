import AnnotationScan.Peg.Rule
import AnnotationScan.Peg.Source
import AnnotationScan.Peg.State

/-!
# Applying rules

`Rule.run` applies a rule and leaves open what a reference does; `Definitions.invoke` closes the
circle with a memo and a limit on nesting.  A rule that does not match consumes nothing, since the
token it started at is never overwritten.
-/

namespace AnnotationScan.Peg

variable {κ σ : Type} [Ledger σ]

namespace Source

def fail (source : Source κ) (reason : Reason) : Matcher σ := fun mode index state =>
  let failure : Failure := ⟨reason, index, source.offset index⟩
  (.ofFailure failure, if mode.quiet then state else Ledger.note state failure)

def accept (source : Source κ) (index : Nat) : Outcome :=
  .matched (source.lexeme index).span (source.next index)

/-- Applies `part` again and again from a token on, until it does not match or does not move on.
Every round but the last one moves on, so there are never more rounds than tokens left. -/
def repeated (source : Source κ) (part : Matcher σ) (mode : Mode) (start : Nat) :
    (rounds index : Nat) → σ → Outcome × σ
  | 0, index, state => (.matched (source.spanFrom start index) index, state)
  | rounds + 1, index, state =>
    match part mode index state with
    | (.matched _ stop, state) =>
      if stop = index then (.matched (source.spanFrom start stop) stop, state)
      else source.repeated part mode start rounds stop state
    | (.failed _, state) => (.matched (source.spanFrom start index) index, state)
    | aborted => aborted

end Source

namespace Rule

variable [DecidableEq κ] [Describe κ]

/-- Applies a rule at a token.  `depth` is the number of recursive rules around it, and `call` what
a reference does. -/
def run (source : Source κ) (depth : Nat) (call : Nat → Matcher σ) : Rule κ → Matcher σ
  | .token kind, mode, index, state =>
    if (source.lexeme index).kind = kind then (source.accept index, state)
    else source.fail (.expected (Describe.describe kind)) mode index state
  | .word, mode, index, state =>
    if (source.lexeme index).isWord then (source.accept index, state)
    else source.fail (.expected "identifier") mode index state
  | .keyword text, mode, index, state =>
    let lexeme := source.lexeme index
    if lexeme.isWord && lexeme.text == text then (source.accept index, state)
    else source.fail (.expected ("`" ++ text ++ "`")) mode index state
  | .nothing, _, index, state => (.matched (Span.point (source.offset index)) index, state)
  | .andThen first second, mode, index, state =>
    match first.run source depth call mode index state with
    | (.matched _ middle, state) =>
      match second.run source depth call mode middle state with
      | (.matched _ stop, state) => (.matched (source.spanFrom index stop) stop, state)
      | unmatched => unmatched
    | unmatched => unmatched
  | .orElse first second, mode, index, state =>
    match first.run source depth call mode index state with
    | (.failed failure, state) =>
      match second.run source depth call mode index state with
      | (.failed failure', state) => (.failed (failure.deeper failure'), state)
      | decided => decided
    | decided => decided
  | .optional part, mode, index, state =>
    match part.run source depth call mode index state with
    | (.matched _ stop, state) => (.matched (source.spanFrom index stop) stop, state)
    | (.failed _, state) => (.matched (Span.point (source.offset index)) index, state)
    | aborted => aborted
  | .many part, mode, index, state =>
    source.repeated (part.run source depth call) mode index (source.last - index + 1) index state
  | .ahead part, mode, index, state =>
    match part.run source depth call mode index state with
    | (.matched _ _, state) => (.matched (Span.point (source.offset index)) index, state)
    | unmatched => unmatched
  | .notAhead part, mode, index, state =>
    match part.run source depth call { mode with quiet := true } index state with
    | (.matched _ _, state) =>
      source.fail (.unexpected (Describe.describe (source.lexeme index).kind)) mode index state
    | (.failed _, state) => (.matched (Span.point (source.offset index)) index, state)
    | aborted => aborted
  | .lineBreak, mode, index, state =>
    if mode.newlines && (source.lexeme index).newlineBefore then
      (.matched (Span.point (source.offset index)) index, state)
    else source.fail (.expected "line break") mode index state
  | .newlines count part, mode, index, state =>
    part.run source depth call { mode with newlines := count } index state
  | .fail reason, mode, index, state => source.fail reason mode index state
  | .any, _, index, state => (source.accept index, state)
  | .failNext reason, mode, index, state => source.fail reason mode (source.next index) state
  | .endPoint part, mode, index, state =>
    match part.run source depth call mode index state with
    | (.matched value stop, state) => (.matched (Span.point value.stop) stop, state)
    | unmatched => unmatched
  | .traced name part, mode, index, state =>
    let (outcome, state) := part.run source depth call mode index state
    (outcome,
      Ledger.observe state ⟨name, depth, source.offset index, outcome.stop?.map source.offset⟩)
  | .ref rule, mode, index, state => call rule mode index state

end Rule

namespace Definitions

variable [DecidableEq κ] [Describe κ]

/-- Applies a recursive rule at a token.  A result found before is used again; otherwise the body is
applied, one level deeper.  `levels` is what is left of the `limit` on nested rules. -/
def invoke (definitions : Definitions κ) (source : Source κ) (limit : Nat) :
    (levels rule : Nat) → Matcher State
  | levels, rule, mode, index, state =>
    let key : Application := ⟨definitions.scope, rule, index, mode⟩
    match state.memo[key]? with
    | some outcome => (outcome, state)
    | none =>
      match definitions.body? rule with
      | none => (.aborted (.undefinedRule (definitions.name rule)), state)
      | some body =>
        match levels with
        | 0 => source.fail (.depthLimit limit) mode index state
        | levels + 1 =>
          let (outcome, state) :=
            body.run source (limit - levels) (definitions.invoke source limit levels)
              mode index state
          (outcome, state.remember key outcome)

end Definitions
end AnnotationScan.Peg
