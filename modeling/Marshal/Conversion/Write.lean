import Marshal.Code.Stmt
import Marshal.Conversion.Basic
import Marshal.Schema.Basic
import Marshal.SchemaError

/-!
# Writing to JSON

The methods `ToJSON(this T val)`. Null objects and collections are written as the JSON null, and
nullable fields without a value are left out.
-/

namespace Marshal.Conversion.Write

open Code

def methodName : String := "ToJSON"

/-- The method that writes values of the type spelled `csharp`. -/
def method (csharp : String) (body : List Stmt) : Method where
  modifiers := modifiers
  returnType := jsonType
  name := methodName
  params := ["this " ++ csharp ++ " val"]
  body := body

/-- The JSON value of `source`. -/
def call (source : String) : String :=
  source ++ "." ++ methodName ++ "()"

/-- A JSON value made from `content`; from nothing, it is the JSON null. -/
def make (content : String) : String :=
  jsonType ++ ".Make(" ++ content ++ ")"

def nullGuard : List Stmt :=
  [.when "val == null" [.ret (some (make ""))], .blank]

/-! ## Composites -/

/-- Whether the nullable type `T?` is a structure around the value, which is then its `Value`. A
composite that the schema does not declare counts as a value type. -/
def isValueType (s : Schema) : TypeExpr → Bool
  | .scalar _ kind => kind != .string
  | .enum _ _ => true
  | .composite _ name =>
    match s.type? name with
    | some c => !c.isRef
    | none => true
  | .array _ _ => false
  | .list _ _ => false
  | .dictionary _ _ _ => false

/-- The expression for the value of a nullable field that is not null. -/
def presentValue (s : Schema) (field : Field) : String :=
  if isValueType s field.type then valueField field.name ++ ".Value" else valueField field.name

def writeField (s : Schema) (field : Field) : Stmt :=
  if field.type.isNullable then
    .when (valueField field.name ++ " != null")
      [.assign (rootMember field.name) (call (presentValue s field))]
  else .assign (rootMember field.name) (call (valueField field.name))

def compositeBody (s : Schema) (c : Composite) : List Stmt :=
  (if c.isRef then nullGuard else [])
    ++ [.construct jsonObject "root" "", .blank]
    ++ c.fields.map (writeField s)
    ++ [.blank, .ret (some (make "root"))]

def compositeMethod (s : Schema) (c : Composite) : Method :=
  method c.name (compositeBody s c)

/-! ## Shared types -/

/-- The text of a number. Binary floating point is written so that it reads back exactly. -/
def numberText : Scalar → String
  | .float => "num.ToString(\"R\", CultureInfo.InvariantCulture)"
  | .double => "num.ToString(\"R\", CultureInfo.InvariantCulture)"
  | _ => "num.ToString(CultureInfo.InvariantCulture)"

def numberBody (kind : Scalar) : List Stmt :=
  [.construct jsonType "numType" "", .define kind.keyword "num" "val",
    .define "string" "numStr" (numberText kind),
    .assign "numType.Num" "Option<string>.Some(numStr)", .blank, .ret (some "numType")]

def scalarBody (kind : Scalar) : List Stmt :=
  if kind.isNumeric then numberBody kind else [.ret (some (make "val"))]

/-- Writes the number that stores the value of an enum. -/
def enumBody : List Stmt :=
  [.define TypeExpr.enumStorage.keyword "asInt" ("(" ++ TypeExpr.enumStorage.keyword ++ ")val"),
    .ret (some (call "asInt"))]

/-- Writes the items of a sequence, whose number is the expression `length`. -/
def sequenceBody (length : String) : List Stmt :=
  nullGuard
    ++ [.define "int" "len" length, .construct jsonArray "list" "len",
      .forLoop "int i = 0" "i < len" "i++" [.expr ("list.Add(" ++ call "val[i]" ++ ")")], .blank,
      .ret (some (make "list"))]

def dictionaryBody : List Stmt :=
  nullGuard
    ++ [.construct jsonObject "dict" "",
      .foreach "pair" "val" [.assign "dict[pair.Key.ToString()]" (call "pair.Value")], .blank,
      .ret (some (make "dict"))]

/-- The body that writes a type, unless it has a method of its own as a composite. -/
def sharedBody? : TypeExpr → Option (List Stmt)
  | .scalar _ kind => some (scalarBody kind)
  | .enum _ _ => some enumBody
  | .array _ _ => some (sequenceBody "val.Length")
  | .list _ _ => some (sequenceBody "val.Count")
  | .dictionary _ _ _ => some dictionaryBody
  | .composite _ _ => none

end Marshal.Conversion.Write
