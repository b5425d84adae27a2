import AnnotationScan.Settings
import AnnotationScan.Span

/-!
# Arguments of the command line

An invocation names a command and a file, with options in front of the command or behind it.  The
value of an option is read when the argument behind it has been looked at; so an option that lacks
its value, or has a wrong one, is noticed before a later option asks for help.
-/

namespace AnnotationScan.CommandLine

/-- What is to be done with a file. -/
inductive Command where
  | scan (file : String) (offset : Nat)
  | preamble (file : String)
deriving DecidableEq, Repr

def Command.file : Command → String
  | .scan file _ | .preamble file => file

/-- A command and the options given with it. -/
structure Invocation where
  maxDepth : Option Nat
  traceRules : Bool
  command : Command
deriving DecidableEq, Repr

inductive Dismissal where
  | misuse
  | help
  | version
deriving DecidableEq, Repr

/-- What an argument looks like. -/
inductive Argument where
  /-- Two hyphens: no option follows. -/
  | separator
  | long (name : String) (value : Option String)
  | short (letter : Char)
  | plain (text : String)
deriving DecidableEq, Repr

/-- What an argument looks like; one hyphen alone is no option. -/
def Argument.ofString (text : String) : Argument :=
  match text.toList with
  | ['-', '-'] => .separator
  | '-' :: '-' :: rest =>
    let name := String.ofList (rest.takeWhile (· != '='))
    match rest.dropWhile (· != '=') with
    | _ :: value => .long name (some (String.ofList value))
    | [] => .long name none
  | '-' :: letter :: _ => .short letter
  | _ => .plain text

/-- The options that take a value. -/
inductive Setter where
  | maxDepth
  | offset
deriving DecidableEq, Repr

/-- Where options stand: in front of the command, or behind one. -/
inductive Place where
  | front
  | scan
  | preamble
deriving DecidableEq, Repr

/-- The options read so far in one place. -/
structure Options where
  place : Place
  maxDepth : Option Nat := none
  offset : Option Nat := none
  traceRules : Bool := false
  /-- The option whose value comes next. -/
  awaiting : Option Setter := none
  /-- A value that has not been read yet. -/
  unread : Option (Setter × String) := none
deriving DecidableEq, Repr

namespace Options

/-- Reads the value of an option, which may be given once in a place. -/
def set (options : Options) (setter : Setter) (value : String) : Except Dismissal Options :=
  match setter with
  | .maxDepth =>
    match options.maxDepth, Text.natural? Settings.largestNumber value.toList with
    | none, some depth => .ok { options with maxDepth := depth }
    | _, _ => .error .misuse
  | .offset =>
    match options.offset, Text.integer? 0 Span.largestOffset value.toList with
    | none, some offset => .ok { options with offset := offset.toNat }
    | _, _ => .error .misuse

/-- The options once the value taken last has been read. -/
def settle (options : Options) : Except Dismissal Options :=
  match options.awaiting, options.unread with
  | some _, _ => .error .misuse
  | none, some (setter, value) => { options with unread := none }.set setter value
  | none, none => .ok options

def setter? (place : Place) (name : String) : Option Setter :=
  if name = "max-depth" then some .maxDepth
  else if name = "offset" ∧ place = .scan then some .offset
  else none

def hasVersion (place : Place) : Bool := place = .front

def takeLong (options : Options) (name : String) (value : Option String) :
    Except Dismissal Options := do
  match setter? options.place name, value with
  | some setter, some value => (← options.settle).set setter value
  | some setter, none => return { ← options.settle with awaiting := some setter }
  | none, some _ => throw .misuse
  | none, none =>
    let options ← options.settle
    if name = "help" then throw .help
    else if name = "version" ∧ hasVersion options.place then throw .version
    else if name = "trace-rules" ∧ !options.traceRules then
      return { options with traceRules := true }
    else throw .misuse

/-- Reads options of one letter; the first one ends the reading. -/
def takeShort (options : Options) (letter : Char) : Except Dismissal Options := do
  let options ← options.settle
  if letter = 'h' then throw .help
  else if letter = 'V' ∧ hasVersion options.place then throw .version
  else throw .misuse

def takeValue (options : Options) (setter : Setter) (value : String) : Options :=
  { options with awaiting := none, unread := some (setter, value) }

end Options

/-- Reads the arguments behind a command: options and one file.  Once `separated`, nothing is an
option. -/
def readFile : List String → Options → (separated : Bool) → (file : Option String) →
    Except Dismissal (Options × String)
  | [], options, _, file => do
    let options ← options.settle
    match file with
    | some file => return (options, file)
    | none => throw .misuse
  | text :: rest, options, separated, file =>
    match if separated then .plain text else Argument.ofString text with
    | .separator => readFile rest options true file
    | .long name value => do readFile rest (← options.takeLong name value) separated file
    | .short letter => do readFile rest (← options.takeShort letter) separated file
    | .plain text =>
      match options.awaiting, separated with
      | some setter, false => readFile rest (options.takeValue setter text) separated file
      | _, _ => do
        let options ← options.settle
        if file.isSome || text.isEmpty then throw .misuse
        else readFile rest options separated (some text)

def helpOn : List String → Dismissal
  | [] => .help
  | [topic] => if ["annotation", "preamble", "help"].contains topic then .help else .misuse
  | _ => .misuse

/-- Joins the options in front of a command with those behind it, which win. -/
def Options.invocation (front inner : Options) (command : Command) : Invocation where
  maxDepth := inner.maxDepth <|> front.maxDepth
  traceRules := front.traceRules || inner.traceRules
  command := command

/-- Reads the arguments in front of a command, the command, and the arguments behind it. -/
def readCommand : List String → Options → Except Dismissal Invocation
  | [], _ => .error .misuse
  | text :: rest, options =>
    match Argument.ofString text with
    | .separator => .error .misuse
    | .long name value => do readCommand rest (← options.takeLong name value)
    | .short letter => do readCommand rest (← options.takeShort letter)
    | .plain text =>
      match options.awaiting with
      | some setter => readCommand rest (options.takeValue setter text)
      | none =>
        if text = "annotation" then do
          let (inner, file) ← readFile rest { place := .scan } false none
          return (← options.settle).invocation inner (.scan file (inner.offset.getD 0))
        else if text = "preamble" then do
          let (inner, file) ← readFile rest { place := .preamble } false none
          return (← options.settle).invocation inner (.preamble file)
        else if text = "help" then .error (helpOn rest)
        else .error .misuse

/-- The invocation that a list of arguments asks for. -/
def Invocation.ofArguments (arguments : List String) : Except Dismissal Invocation :=
  readCommand arguments { place := .front }

end AnnotationScan.CommandLine
