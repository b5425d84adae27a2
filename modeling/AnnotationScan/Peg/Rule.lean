import AnnotationScan.Peg.Failure
import AnnotationScan.Text.Quoted

/-!
# Rules

A rule of a parsing expression grammar over tokens of kind `κ`: ordered choice, greedy repetition,
lookahead that consumes nothing, and line breaks that count in some places and not in others.
References name the recursive definitions of a grammar by their index.
-/

namespace AnnotationScan.Peg

/-- A parsing expression. -/
inductive Rule (κ : Type) where
  /-- One token of a kind. -/
  | token (kind : κ)
  | word
  /-- The identifier with a certain spelling. -/
  | keyword (text : String)
  | nothing
  /-- The first rule, then the second where the first one ended. -/
  | andThen (first second : Rule κ)
  /-- The first rule, or the second where the first one does not match. -/
  | orElse (first second : Rule κ)
  /-- The rule if it matches, otherwise nothing. -/
  | optional (part : Rule κ)
  /-- The rule as often as it matches and moves on. -/
  | many (part : Rule κ)
  /-- Nothing, where the rule matches. -/
  | ahead (part : Rule κ)
  /-- Nothing, where the rule does not match. -/
  | notAhead (part : Rule κ)
  /-- Nothing, in front of a token that starts a line, where line breaks count. -/
  | lineBreak
  /-- The rule, with line breaks counting or not. -/
  | newlines (count : Bool) (part : Rule κ)
  | fail (reason : Reason)
  | any
  /-- Always a failure, at the token behind the current one. -/
  | failNext (reason : Reason)
  /-- The rule, with the point at the end of its value as value. -/
  | endPoint (part : Rule κ)
  /-- The rule, noted in the trace log under a name. -/
  | traced (name : String) (part : Rule κ)
  /-- The recursive definition with an index. -/
  | ref (index : Nat)
deriving DecidableEq, Inhabited

namespace Rule

variable {κ : Type}

def seq : List (Rule κ) → Rule κ
  | [] => .nothing
  | part :: parts => .andThen part (seq parts)

def choice : List (Rule κ) → Rule κ
  | [] => .fail (.expected "an alternative")
  | [rule] => rule
  | rule :: rules => .orElse rule (choice rules)

/-- The rule at least once, and as often as it matches and moves on. -/
def atLeastOnce (part : Rule κ) : Rule κ := seq [part, .many part]

def wrapped (opening content closing : Rule κ) : Rule κ := seq [opening, content, closing]

/-- A production that is left out on purpose. -/
def stub (production : String) : Rule κ := .fail (.notImplemented production)

end Rule

/-- A recursive rule: its name, and its body unless it has none. -/
structure Definition (κ : Type) where
  name : String
  body : Option (Rule κ)
deriving DecidableEq, Inhabited

/-- The recursive rules that references of a grammar stand for.  Grammars that are used on one
cursor have different scopes, so that their results are kept apart. -/
structure Definitions (κ : Type) where
  scope : Nat
  entries : Array (Definition κ)
deriving DecidableEq, Inhabited

namespace Definitions

variable {κ : Type} (definitions : Definitions κ)

def body? (rule : Nat) : Option (Rule κ) := definitions.entries[rule]?.bind (·.body)

def name (rule : Nat) : String := (definitions.entries[rule]?.map (·.name)).getD ""

/-- The index of the rule that was declared last under a name. -/
def index? (name : String) : Option Nat :=
  (definitions.entries.mapIdx fun index entry => (index, entry.name)).reverse.find?
    (·.2 == name) |>.map (·.1)

/-- The number of rules with a body. -/
def size : Nat := (definitions.entries.filter (·.body.isSome)).size

def isEmpty : Bool := definitions.size == 0

/-- The names of the rules without a body. -/
def undefinedNames : Array String :=
  (definitions.entries.filter (·.body.isNone)).map (·.name)

/-- The definitions as text: how many rules have a body, and the names of those that have none. -/
def render : String :=
  let names := definitions.undefinedNames.toList.map Text.quotedString
  "Definitions \x7b rules: " ++ toString definitions.size ++ ", unresolved: [" ++
    ", ".intercalate names ++ "] \x7d"

def dropped : Definitions κ :=
  { definitions with
    entries := definitions.entries.map fun entry => { entry with body := none } }

end Definitions
end AnnotationScan.Peg
