import AnnotationScan.Grammar.Expressions
import AnnotationScan.Peg.Cursor
import AnnotationScan.Settings

/-!
# Recognizing annotations

The annotation grammar with its two entries.  An entry forgets what earlier parses have learnt, so
that its answer depends on the tokens alone, and where it does not match it reports the failure that
tells most, unless the nesting was too deep.
-/

namespace AnnotationScan

open Peg

namespace Grammar

def Nonterminal.body (trace : Bool) : Nonterminal → TokenRule
  | .type => typeBody trace
  | .annotationUse => annotationBody trace
  | .parenthesizedUserType => parenthesizedUserTypeBody trace
  | .expression => expressionBody trace
  | .primaryExpression => primaryExpressionBody trace
  | .directlyAssignableExpression => directlyAssignableExpressionBody trace
  | .assignableExpression => assignableExpressionBody trace

def definitions (trace : Bool) : Definitions TokenKind where
  scope := 0
  entries := (Nonterminal.all.map fun nonterminal =>
    ⟨nonterminal.name, some (nonterminal.body trace)⟩).toArray

end Grammar

/-- The two kinds of annotations that can be asked for. -/
inductive Entry where
  | plain
  | file
deriving DecidableEq, Repr, Inhabited

structure Recognizer where
  settings : Settings
  definitions : Definitions TokenKind
  plain : Grammar.TokenRule
  file : Grammar.TokenRule

/-- A recognized annotation: its tokens' span, and the index of the token behind it. -/
structure Recognized where
  span : Span
  stop : Nat
deriving DecidableEq, Repr, Inhabited

namespace Recognizer

def build (settings : Settings) : Recognizer where
  settings := settings
  definitions := Grammar.definitions settings.traceRules
  plain := Grammar.plainEntry settings.traceRules
  file := Grammar.fileEntry settings.traceRules

def render (grammar : Recognizer) : String :=
  "AnnotationGrammar \x7b config: ParseConfig \x7b max_depth: " ++
    toString grammar.settings.maxDepth ++ ", trace_rules: " ++
    toString grammar.settings.traceRules ++ " \x7d, .. \x7d"

def rule (grammar : Recognizer) : Entry → Grammar.TokenRule
  | .plain => grammar.plain
  | .file => grammar.file

def cursor (grammar : Recognizer) (tokens : TokenList) : Cursor TokenKind where
  source := tokens.toSource
  maxDepth := grammar.settings.maxDepth

/-- Recognizes an annotation at a cursor, which moves behind it or stays. -/
def recognize (grammar : Recognizer) (entry : Entry) (cursor : Cursor TokenKind) :
    Except Failure Recognized × Cursor TokenKind :=
  let (outcome, after) :=
    cursor.forgetFailure.forgetResults.parse grammar.definitions (grammar.rule entry)
  let answer := match outcome with
    | .matched span stop => .ok ⟨span, stop⟩
    | .failed failure => .error (after.state.furthest.getD failure)
    | .aborted (.fatal failure) => .error failure
    | .aborted (.undefinedRule name) =>
      .error ⟨.notImplemented name, cursor.index, cursor.offset⟩
  (answer, after)

/-- Recognizes an annotation at the token with an index. -/
def recognizeAt (grammar : Recognizer) (tokens : TokenList) (index : Nat) :
    Except Failure Recognized :=
  (grammar.recognize .plain ((grammar.cursor tokens).moveTo index)).1

end Recognizer
end AnnotationScan
