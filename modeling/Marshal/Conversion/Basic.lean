/-!
# Directions and names

Generated code converts in one of two directions. A direction is named by one word, which is the
same on the command line and in messages. The names of `Conversion` are those that the code of both
directions uses: a JSON value is an object of the class `JSONType`, of which one part at most is
present: a text, a boolean, a number as text, an array or an object.
-/

namespace Marshal

/-- Whether the generated code reads typed values from JSON or writes them to JSON. -/
inductive Direction where
  | fromJson
  | toJson
  deriving Repr, DecidableEq

/-- A word that names no direction. -/
structure UnknownDirection where
  word : String
  deriving Repr, DecidableEq

def UnknownDirection.message (e : UnknownDirection) : String :=
  "unknown direction '" ++ e.word ++ "', expected 'from' or 'to'"

namespace Direction

def word : Direction → String
  | fromJson => "from"
  | toJson => "to"

def parse (word : String) : Except UnknownDirection Direction :=
  if word = "from" then .ok fromJson
  else if word = "to" then .ok toJson
  else .error ⟨word⟩

/-- The name of the generated class, unless another is asked for. -/
def defaultClass : Direction → String
  | fromJson => "FromJSONExtensions"
  | toJson => "ToJSONExtensions"

theorem parse_eq_ok {text : String} {d : Direction} : parse text = .ok d ↔ text = d.word := by
  by_cases hf : text = "from"
  · cases d <;> simp [parse, word, hf]
  · by_cases ht : text = "to"
    · cases d <;> simp [parse, word, ht]
    · cases d <;> simp [parse, word, hf, ht]

end Direction

/-! ## Names in generated code -/

namespace Conversion

def jsonType : String := "JSONType"

/-- The type of the object in a JSON value. -/
def jsonObject : String := "Dictionary<string, JSONType>"

/-- The type of the array in a JSON value. -/
def jsonArray : String := "List<JSONType>"

/-- The modifiers of every generated method, and of the class. -/
def modifiers : String := "public static"

/-- The member of the JSON object `root` under a key. -/
def rootMember (key : String) : String :=
  "root[\"" ++ key ++ "\"]"

/-- The field of the converted value. -/
def valueField (name : String) : String :=
  "val." ++ name

end Conversion

end Marshal
