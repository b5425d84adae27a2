import AnnotationScan.CommandLine.Arguments
import AnnotationScan.Scan

/-!
# Reports

What the program prints and returns.  The exit code is 0 if all went well, 1 if there is no
annotation, and 2 if the settings are wrong, the input cannot be read or the text is malformed.
-/

namespace AnnotationScan.CommandLine

/-- What the program prints, and its exit code. -/
structure Report where
  code : Nat
  output : String := ""
  errors : String := ""
deriving DecidableEq, Repr

/-- Why an input cannot be read. -/
inductive ReadError where
  | missing
  | directory
  | notText
  | other (message : String)
deriving DecidableEq, Repr

def ReadError.message : ReadError → String
  | .missing => "No such file or directory (os error 2)"
  | .directory => "Is a directory (os error 21)"
  | .notText => "stream did not contain valid UTF-8"
  | .other message => message

/-- Why a command cannot be carried out. -/
inductive Error where
  | settings (error : Settings.Error)
  | unreadable (path : String) (error : ReadError)
  | malformed (path : String) (fault : Fault)
deriving DecidableEq, Repr

def Error.message : Error → String
  | .settings error => error.message
  | .unreadable path error => s!"cannot read {path}: {error.message}"
  | .malformed path fault => s!"{path}: malformed input: {fault.message}"

def usageText : String :=
  "Find where Kotlin annotations end\n\n" ++
  "Usage: ktsc [OPTIONS] annotation [--offset <OFFSET>] <FILE>\n" ++
  "       ktsc [OPTIONS] preamble <FILE>\n\n" ++
  "Options:\n" ++
  "      --max-depth <N>  Maximum nesting of recursive grammar rules\n" ++
  "      --trace-rules    Trace every grammar rule\n" ++
  "  -h, --help           Print help\n" ++
  "  -V, --version        Print version\n"

def versionText : String := "ktsc 0.1.0\n"

def Dismissal.report : Dismissal → Report
  | .misuse => { code := 2, errors := usageText }
  | .help => { code := 0, output := usageText }
  | .version => { code := 0, output := versionText }

def annotationLine (source : String) (span : Span) : String :=
  let text := (Text.slice? source span.start span.stop).getD ""
  s!"{span.render}\t{text}\n"

def reportVerdict (path source : String) : Verdict → Except Error Report
  | .matched span stop =>
    .ok { code := 0, output := annotationLine source span ++ s!"end {stop}\n" }
  | .rejected reason offset =>
    .ok { code := 1, output := s!"rejected at {offset}: {reason.message}\n" }
  | .malformed fault => .error (.malformed path fault)

def reportPreamble (source : String) (preamble : Preamble) : Report :=
  { code := 0
    output := preamble.annotations.foldl
      (fun printed span => printed ++ annotationLine source span) "" ++
        s!"body {preamble.bodyOffset}\n" }

def Error.report (error : Error) : Report :=
  { code := 2, errors := s!"error: {error.message}\n" }

namespace Invocation

/-- The settings of the environment, with the options of an invocation before them. -/
def settings (invocation : Invocation) (environment : String → Option String) :
    Except Settings.Error Settings := do
  let given ← Settings.ofVariables environment
  let maxDepth ← match invocation.maxDepth with
    | none => pure given.maxDepth
    | some 0 => throw (.invalidDepth "--max-depth" "0")
    | some depth => pure depth
  return { maxDepth, traceRules := given.traceRules || invocation.traceRules }

/-- Carries out a command on what reading its file gave. -/
def perform (invocation : Invocation) (environment : String → Option String)
    (contents : Except ReadError ByteArray) : Except Error Report := do
  let path := invocation.command.file
  let settings ← (invocation.settings environment).mapError .settings
  let bytes ← contents.mapError (.unreadable path)
  let some source := String.fromUTF8? bytes | throw (.unreadable path .notText)
  let grammar := Recognizer.build settings
  match invocation.command with
  | .scan _ offset => reportVerdict path source (grammar.scanAt source offset)
  | .preamble _ =>
    let preamble ← (grammar.preamble source).mapError (.malformed path)
    return reportPreamble source preamble

def report (invocation : Invocation) (environment : String → Option String)
    (contents : Except ReadError ByteArray) : Report :=
  match invocation.perform environment contents with
  | .ok report => report
  | .error error => error.report

end Invocation
end AnnotationScan.CommandLine
