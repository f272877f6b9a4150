import Marshal.CommandLine.Report
import Marshal.CommandLine.Setting

/-!
# A run of the program

The program reads a schema document from its input and prints the generated code. Whether the
settings are complete is decided before the input is read. How arguments become settings, how a
document is read and how failures are reported is left to three libraries, which are parameters.
-/

namespace Marshal

namespace CommandLine

/-- The exit code of a program, and what it prints on standard output and on standard error. -/
structure Ending where
  exitCode : UInt8
  output : String
  complaint : String := ""
  deriving Repr, DecidableEq

namespace Ending

def success (code : String) : Ending where
  exitCode := 0
  output := code ++ "\n"

def failure (line : String) : Ending where
  exitCode := 1
  output := "ERROR: " ++ line ++ "\n"

end Ending

section

variable {ε ρ : Type} (reader : DocumentReader ε) (reporter : Reporter ε ρ)

/-- The configuration in the settings. -/
def configure (settings : List Setting) : Except ρ Config :=
  match Config.ofSettings? settings with
  | none => .error (reporter.ofText "You must specify either gen=from or gen=to")
  | some config => .ok config

/-- The code for an input, which has to be text. -/
def Config.codeFor (config : Config) (input : ByteArray) : Except ρ String :=
  match reader.decode input with
  | none => .error (reporter.within "failed to read schema from stdin" (reporter.ofCause .notUtf8))
  | some text =>
    match reader.parse text with
    | .error e => .error (reporter.ofCause (.json e))
    | .ok document =>
      match generate document config.direction config.options with
      | .error e => .error (reporter.ofCause (.schema e))
      | .ok code => .ok code

/-- What a report is told by. For a schema error this is its kind alone. -/
def errorLine (report : ρ) : String :=
  match reporter.schemaError? report with
  | some e => e.kind
  | none => reporter.line report

def ending : Except ρ String → Ending
  | .ok code => .success code
  | .error report => .failure (errorLine reporter report)

/-- How the program ends on settings and an input. -/
def run (settings : List Setting) (input : ByteArray) : Ending :=
  ending reporter do
    let config ← configure reporter settings
    config.codeFor reader reporter input

/-- A library that reads arguments as settings. Where it finds none, it ends the program. -/
abbrev ArgumentReader : Type :=
  List String → Except Ending (List Setting)

/-- Arguments that are all settings, and of which none starts like an option, are read as these
settings. -/
def ArgumentReader.TakesSettings (readArguments : ArgumentReader) : Prop :=
  ∀ (arguments : List String) (settings : List Setting),
    (∀ argument ∈ arguments, argument.toList.head? ≠ some '-') →
    arguments.mapM Setting.parse = .ok settings → readArguments arguments = .ok settings

/-- How the program ends on arguments and an input. -/
def program (readArguments : ArgumentReader) (arguments : List String) (input : ByteArray) :
    Ending :=
  match readArguments arguments with
  | .error ending => ending
  | .ok settings => run reader reporter settings input

end

end CommandLine

end Marshal
