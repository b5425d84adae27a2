import AnnotationScan.CommandLine.Report

/-!
# The program

Reads the arguments, the environment and the input, and prints the report on them.
-/

namespace AnnotationScan.CommandLine

/-- The bytes of a stream up to its end, behind those read before. -/
partial def readStream (stream : IO.FS.Stream) (before : ByteArray) : IO ByteArray := do
  let bytes ← stream.read 65536
  if bytes.isEmpty then return before else readStream stream (before ++ bytes)

/-- The bytes of a file, or of standard input for `-`. -/
def readContents (path : String) : IO (Except ReadError ByteArray) := do
  try
    if path == "-" then return .ok (← readStream (← IO.getStdin) .empty)
    else return .ok (← IO.FS.readBinFile path)
  catch
    | .noFileOrDirectory .. => return .error .missing
    | .inappropriateType .. => return .error .directory
    | error => return .error (.other (toString error))

def emit (report : Report) : IO UInt32 := do
  (← IO.getStdout).putStr report.output
  (← IO.getStderr).putStr report.errors
  return report.code.toUInt32

end AnnotationScan.CommandLine

open AnnotationScan.CommandLine in
def main (arguments : List String) : IO UInt32 := do
  match Invocation.ofArguments arguments with
  | .error dismissal => emit dismissal.report
  | .ok invocation =>
    let depth ← IO.getEnv AnnotationScan.Settings.depthVariable
    let trace ← IO.getEnv AnnotationScan.Settings.traceVariable
    let environment (name : String) : Option String :=
      if name = AnnotationScan.Settings.depthVariable then depth
      else if name = AnnotationScan.Settings.traceVariable then trace
      else none
    emit (invocation.report environment (← readContents invocation.command.file))
