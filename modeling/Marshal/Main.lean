import Marshal.CommandLine.Arguments

/-!
# The program

Reads a schema document from standard input and prints the conversion class.
-/

open Marshal

/-- Prints what a program prints, and gives its exit code. -/
def Marshal.CommandLine.Ending.print (ending : CommandLine.Ending) : IO UInt32 := do
  (← IO.getStdout).putStr ending.output
  (← IO.getStderr).putStr ending.complaint
  return ending.exitCode.toUInt32

def main (arguments : List String) : IO UInt32 := do
  let reporter := CommandLine.Report.reporter Json.reader
  match CommandLine.readArguments arguments with
  | .error ending => ending.print
  | .ok settings =>
    match CommandLine.configure reporter settings with
    | .error report => (CommandLine.ending reporter (.error report)).print
    | .ok config =>
      let input ← (← IO.getStdin).readBinToEnd
      (CommandLine.ending reporter (config.codeFor Json.reader reporter input)).print
