import Marshal.Generate
import Marshal.Text.Basic

/-!
# Settings

An argument of the command line is a setting `KEY=VALUE`. Of the settings with one key the last
counts, except that every `using` adds to the imported namespaces.
-/

namespace Marshal

namespace CommandLine

inductive Setting where
  | direction (value : Direction)
  | namespaceName (value : String)
  | usingName (value : String)
  | className (value : String)
  deriving Repr, DecidableEq

inductive SettingError where
  | noEquals (text : String)
  | unknownKey (key : String)
  | unknownDirection (e : UnknownDirection)
  deriving Repr, DecidableEq

def SettingError.message : SettingError → String
  | .noEquals text => "expected KEY=VALUE, got '" ++ text ++ "'"
  | .unknownKey key => "unknown setting '" ++ key ++ "'"
  | .unknownDirection e => e.message

namespace Setting

def key : Setting → String
  | direction _ => "gen"
  | namespaceName _ => "namespace"
  | usingName _ => "using"
  | className _ => "class"

def value : Setting → String
  | direction value => value.word
  | namespaceName value => value
  | usingName value => value
  | className value => value

def ofKeyValue (key value : String) : Except SettingError Setting :=
  if key = "gen" then
    match Direction.parse value with
    | .ok d => .ok (direction d)
    | .error e => .error (.unknownDirection e)
  else if key = "namespace" then .ok (namespaceName value)
  else if key = "using" then .ok (usingName value)
  else if key = "class" then .ok (className value)
  else .error (.unknownKey key)

/-- Reads a setting. The first `=` ends the key. -/
def parse (text : String) : Except SettingError Setting :=
  match Text.splitFirst? '=' text.toList with
  | none => .error (.noEquals text)
  | some (key, value) => ofKeyValue (String.ofList key) (String.ofList value)

end Setting

/-- What the settings say, as far as they are known. -/
structure Choices where
  direction : Option Direction := none
  options : Options := {}
  deriving Repr, DecidableEq

namespace Choices

def add (c : Choices) : Setting → Choices
  | .direction value => { c with direction := some value }
  | .namespaceName value => { c with options := { c.options with namespaceName := value } }
  | .usingName value => { c with options := c.options.addUsings [value] }
  | .className value => { c with options := c.options.withClassName value }

def ofSettings (settings : List Setting) : Choices :=
  settings.foldl add {}

end Choices

/-- What is to be generated. -/
structure Config where
  direction : Direction
  options : Options
  deriving Repr, DecidableEq

/-- The configuration that settings describe, if they name a direction. -/
def Config.ofSettings? (settings : List Setting) : Option Config :=
  let choices := Choices.ofSettings settings
  choices.direction.map fun direction => { direction, options := choices.options }

end CommandLine

end Marshal
