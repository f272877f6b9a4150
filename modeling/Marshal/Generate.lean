import Marshal.Code.Layout
import Marshal.Conversion.Methods
import Marshal.Json.Reader
import Marshal.Schema.Reader

/-!
# Generating a conversion class

The options wrap the methods of a schema into a compilation unit, whose text is the generated code.
A schema may be given as a document, as the text of one, or as the contents of a file. For the last
two, any library that reads JSON will do.
-/

namespace Marshal

/-- How the generated code is wrapped. -/
structure Options where
  namespaceName : String := "jonson.autogen"
  /-- Imported namespaces besides those that every unit imports. -/
  usings : List String := []
  /-- The name of the class, if it is not the default of the direction. -/
  className : Option String := none
  deriving Repr, DecidableEq

namespace Options

/-- The namespaces that every unit imports. -/
def baseUsings : List String :=
  ["System.Collections.Generic", "System.Globalization"]

def allUsings (options : Options) : List String :=
  baseUsings ++ options.usings

def addUsings (options : Options) (names : List String) : Options :=
  { options with usings := options.usings ++ names }

def withClassName (options : Options) (name : String) : Options :=
  { options with className := some name }

def classNameFor (options : Options) (direction : Direction) : String :=
  options.className.getD direction.defaultClass

end Options

/-- The compilation unit around methods. -/
def unitOf (direction : Direction) (options : Options) (methods : List Code.Method) :
    Code.CompilationUnit where
  usings := options.allUsings
  namespaceName := options.namespaceName
  classModifiers := Conversion.modifiers
  className := options.classNameFor direction
  methods := methods

/-- The code that converts the types of a schema. -/
def Schema.generate (s : Schema) (direction : Direction) (options : Options) :
    Except SchemaError String := do
  let methods ← s.methods direction
  return (unitOf direction options methods).render

/-- The code for a schema document. -/
def generate (document : Json) (direction : Direction) (options : Options) :
    Except SchemaError String := do
  let s ← Schema.ofJson document
  s.generate direction options

/-! ## Documents as text and files -/

/-- A library that reads JSON documents, where `ε` is the type of its errors. -/
structure DocumentReader (ε : Type) where
  /-- The text that the bytes encode, if they are UTF-8. -/
  decode : ByteArray → Option String
  parse : String → Except ε Json
  /-- What is wrong with a text, as a sentence for people. -/
  message : ε → String

/-- Why there is no code for a text or a file. -/
inductive GenerateError (ε : Type) where
  | missingFile
  | notUtf8
  | json (e : ε)
  | schema (e : SchemaError)
  deriving Repr, DecidableEq

section

variable {ε : Type} (reader : DocumentReader ε)

def GenerateError.message : GenerateError ε → String
  | .missingFile => "IO error: No such file or directory (os error 2)"
  | .notUtf8 => "IO error: stream did not contain valid UTF-8"
  | .json e => "JSON parse error: " ++ reader.message e
  | .schema e => "schema error: " ++ e.message

/-- The code for the text of a schema document. The text is read as a whole before the schema is
looked at. -/
def generateFromText (text : String) (direction : Direction) (options : Options) :
    Except (GenerateError ε) String :=
  match reader.parse text with
  | .error e => .error (.json e)
  | .ok document =>
    match generate document direction options with
    | .error e => .error (.schema e)
    | .ok code => .ok code

/-- The code for the contents of a file, or for a file that does not exist. -/
def generateFromFile (contents : Option ByteArray) (direction : Direction) (options : Options) :
    Except (GenerateError ε) String :=
  match contents with
  | none => .error .missingFile
  | some bytes =>
    match reader.decode bytes with
    | none => .error .notUtf8
    | some text => generateFromText reader text direction options

end

/-- The reader that this library brings along. -/
def Json.reader : DocumentReader Json.SyntaxError where
  decode := String.fromUTF8?
  parse := Json.parse
  message := Json.SyntaxError.message

end Marshal
