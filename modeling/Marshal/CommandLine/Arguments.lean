import Marshal.CommandLine.Run

/-!
# Arguments

A reader of arguments, which are settings and options. They are looked at from left to right, and
the first that asks for help or for the version, or that is at fault, decides and ends the program.
After `--` there are settings only.
-/

namespace Marshal

namespace CommandLine

/-- Why the arguments are no list of settings. -/
inductive Refusal where
  | help
  | version
  | unknownOption (argument : String)
  | badSetting (argument : String) (e : SettingError)
  deriving Repr, DecidableEq

def setting (argument : String) : Except Refusal Setting :=
  match Setting.parse argument with
  | .ok s => .ok s
  | .error e => .error (.badSetting argument e)

/-- What an argument asks for if it is an option. A lone hyphen is none. Of short options written
together the first decides. -/
def optionRefusal? (argument : String) : Option Refusal :=
  match argument.toList with
  | ['-'] => none
  | '-' :: '-' :: _ =>
    if argument = "--help" then some .help
    else if argument = "--version" then some .version
    else some (.unknownOption argument)
  | '-' :: 'h' :: _ => some .help
  | '-' :: 'V' :: _ => some .version
  | '-' :: _ => some (.unknownOption argument)
  | _ => none

def parseArguments : List String → Except Refusal (List Setting)
  | [] => .ok []
  | argument :: rest =>
    if argument = "--" then rest.mapM setting
    else
      match optionRefusal? argument with
      | some refusal => .error refusal
      | none => do
        let s ← setting argument
        let settings ← parseArguments rest
        return s :: settings

/-! ## How refusals end the program -/

def helpText : String :=
  "Generate C# JSON conversion code from a schema read on stdin\n\n"
    ++ "Usage: jsonmeta [KEY=VALUE]...\n\n"
    ++ "Arguments:\n"
    ++ "  [KEY=VALUE]...  Settings: gen=from|to, namespace=<name>, using=<name> (repeatable), "
    ++ "class=<name>\n\n"
    ++ "Options:\n"
    ++ "  -h, --help     Print help\n"
    ++ "  -V, --version  Print version\n"

def versionText : String :=
  "jsonmeta 0.3.0\n"

def Refusal.ending : Refusal → Ending
  | .help => { exitCode := 0, output := helpText }
  | .version => { exitCode := 0, output := versionText }
  | .unknownOption argument =>
    { exitCode := 2, output := "",
      complaint := "error: unexpected argument '" ++ argument ++ "' found\n" }
  | .badSetting argument e =>
    { exitCode := 2, output := "",
      complaint := "error: invalid value '" ++ argument ++ "' for '[KEY=VALUE]...': " ++ e.message
        ++ "\n" }

def readArguments : ArgumentReader := fun arguments =>
  (parseArguments arguments).mapError Refusal.ending

end CommandLine

end Marshal
