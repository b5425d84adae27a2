import AnnotationScan.Peg.Cursor
import AnnotationScan.Text.Number
import AnnotationScan.Text.WhiteSpace

/-!
# Settings

Two settings govern a parse: how deep recursive rules may nest, and whether named rules are traced.
Both may be given by variables of the environment.  A variable that holds only white space counts as
absent, and white space around a value is ignored.
-/

namespace AnnotationScan

structure Settings where
  maxDepth : Nat := Peg.defaultDepth
  traceRules : Bool := false
deriving DecidableEq, Repr, Inhabited

namespace Settings

def depthVariable : String := "KTS_MAX_DEPTH"

def traceVariable : String := "KTS_TRACE_RULES"

/-- The largest number that a setting may hold. -/
def largestNumber : Nat := 0xffffffffffffffff

/-- What is wrong with a setting: where it comes from, and its value as given. -/
inductive Error where
  | invalidDepth (origin value : String)
  | invalidFlag (origin value : String)
deriving DecidableEq, Repr

def Error.message : Error → String
  | .invalidDepth origin value => origin ++ " must be a positive integer, got `" ++ value ++ "`"
  | .invalidFlag origin value =>
    origin ++ " must be a boolean flag (1/0, true/false, yes/no, on/off), got `" ++ value ++ "`"

/-- The values of variables, those left out that hold only white space. -/
def present (environment : String → Option String) (name : String) : Option String :=
  (environment name).filter fun value => !Text.isBlank value.toList

/-- A limit on nesting: a positive number. -/
def depth? (value : String) : Option Nat :=
  (Text.natural? largestNumber (Text.trim value.toList)).filter (0 < ·)

def affirmations : List String := ["1", "true", "yes", "on"]

def negations : List String := ["0", "false", "no", "off"]

/-- A flag: a word for yes or no, in capitals or not. -/
def flag? (value : String) : Option Bool :=
  let word := String.ofList ((Text.trim value.toList).map Char.toLower)
  if affirmations.contains word then some true
  else if negations.contains word then some false
  else none

/-- The settings that variables give.  The limit on nesting is looked at first. -/
def ofVariables (environment : String → Option String) : Except Error Settings := do
  let maxDepth ← match present environment depthVariable with
    | none => pure Peg.defaultDepth
    | some value =>
      match depth? value with
      | some depth => pure depth
      | none => throw (.invalidDepth depthVariable value)
  let traceRules ← match present environment traceVariable with
    | none => pure false
    | some value =>
      match flag? value with
      | some flag => pure flag
      | none => throw (.invalidFlag traceVariable value)
  return { maxDepth, traceRules }

end Settings
end AnnotationScan
