import Marshal.Code.Stmt
import Marshal.Conversion.Basic
import Marshal.Schema.Basic
import Marshal.SchemaError

/-!
# Reading from JSON

The methods `FromJSON(this JSONType type, ref T val)`. They leave `val` as it is where the JSON
value has no part of the expected kind, and a field as it is where the object has no such key.
-/

namespace Marshal.Conversion

/-! ## Array allocation

In an allocation of jagged arrays the count stands before the brackets of the elements: an array of
`int[]` is allocated as `new int[count][]`. -/

/-- Strips the pairs of brackets that a spelling ends with, given from the last character to the
first, and counts them. -/
def stripRanks : List Char → List Char × Nat
  | ']' :: '[' :: rest =>
    let (base, ranks) := stripRanks rest
    (base, ranks + 1)
  | base => (base, 0)

/-- The text `[][]…` of so many pairs. -/
def rankText (ranks : Nat) : String :=
  String.ofList (List.replicate ranks ['[', ']']).flatten

/-- The allocation of an array of `count` elements of the type spelled `elem`. -/
def arrayAllocation (elem count : String) : String :=
  let (base, ranks) := stripRanks elem.toList.reverse
  "new " ++ String.ofList base.reverse ++ "[" ++ count ++ "]" ++ rankText ranks

namespace Read

open Code

/-! ## Methods and calls -/

def methodName : String := "FromJSON"

/-- The method that reads values of the type spelled `csharp`. -/
def method (csharp : String) (body : List Stmt) : Method where
  modifiers := modifiers
  returnType := "void"
  name := methodName
  params := ["this " ++ jsonType ++ " type", "ref " ++ csharp ++ " val"]
  body := body

/-- Reads the JSON value `source` into the variable `target`. -/
def call (source target : String) : Stmt :=
  .expr (source ++ "." ++ methodName ++ "(ref " ++ target ++ ")")

/-- A local variable of the type spelled `csharp`, with that type's default value. -/
def defaultValue (csharp name : String) : Stmt :=
  .define csharp name ("default(" ++ csharp ++ ")")

/-- Does `body` if the JSON value has the part `part`. -/
def whenPresent (part : String) (body : List Stmt) : List Stmt :=
  [.when ("type." ++ part ++ ".IsSome()") body]

/-- The part `part` of the JSON value, which is known to be present. -/
def peel (part : String) : String :=
  "type." ++ part ++ ".Peel()"

/-! ## Composites -/

/-- A null becomes null; anything else is read into a variable of the type without its mark. -/
def nullableField (field : Field) : Stmt :=
  let inner := field.type.inner.csharp
  .conditional
    [(rootMember field.name ++ ".Null.IsSome()", [.assign (valueField field.name) "null"])]
    (some [defaultValue inner "actual", call (rootMember field.name) "actual",
      .assign (valueField field.name) "actual"])

def plainField (field : Field) : Stmt :=
  call (rootMember field.name) (valueField field.name)

def readField (field : Field) : Stmt :=
  .when ("root.ContainsKey(\"" ++ field.name ++ "\")")
    [if field.type.isNullable then nullableField field else plainField field]

/-- Creates the object to read into, if there is none. -/
def allocateIfNull (name : String) : List Stmt :=
  [.when "val == null" [.assign "val" ("new " ++ name ++ "()")], .blank]

def compositeBody (c : Composite) : List Stmt :=
  (if c.isRef then allocateIfNull c.name else [])
    ++ [.when "type.Obj.IsNone()" [.ret none], .blank, .define jsonObject "root" (peel "Obj"),
      .blank]
    ++ c.fields.flatMap fun field => [readField field, .blank]

def compositeMethod (c : Composite) : Method :=
  method c.name (compositeBody c)

/-! ## Shared types -/

def numberBody (kind : Scalar) : List Stmt :=
  whenPresent "Num"
    [.define "string" "numStr" (peel "Num"), .blank,
      .define "NumberStyles" "style" "NumberStyles.AllowDecimalPoint",
      .expr "style |= NumberStyles.AllowExponent",
      .expr "style |= NumberStyles.AllowLeadingSign", .blank,
      .expr (kind.keyword
        ++ ".TryParse(numStr, style, CultureInfo.InvariantCulture, out val)")]

def scalarBody : Scalar → List Stmt
  | .string => whenPresent "Str" [.assign "val" (peel "Str")]
  | .bool => whenPresent "Bool" [.assign "val" (peel "Bool")]
  | kind => numberBody kind

/-- Reads the number that stores the value of an enum. -/
def enumBody (name : String) : List Stmt :=
  whenPresent "Num"
    [defaultValue TypeExpr.enumStorage.keyword "num", call "type" "num",
      .assign "val" ("(" ++ name ++ ")num")]

/-- Allocates a sequence for the items of `list` and reads them one after another. -/
def sequenceBody (elem allocation : String) (store : Stmt) : List Stmt :=
  whenPresent "Arr"
    [.define jsonArray "list" (peel "Arr"), .assign "val" allocation, .blank,
      .forLoop "int i = 0" "i < list.Count" "i++"
        [defaultValue elem "element", call "list[i]" "element", store]]

def arrayBody (elem : String) : List Stmt :=
  sequenceBody elem (arrayAllocation elem "list.Count") (.assign "val[i]" "element")

def listBody (elem : String) : List Stmt :=
  sequenceBody elem ("new List<" ++ elem ++ ">(list.Count)") (.expr "val.Add(element)")

def dictionaryBody (dictionary value : String) : List Stmt :=
  whenPresent "Obj"
    [.assign "val" ("new " ++ dictionary ++ "()"), .define jsonObject "obj" (peel "Obj"),
      .foreach "pair" "obj"
        [defaultValue value "pairVal", call "pair.Value" "pairVal",
          .assign "val[pair.Key]" "pairVal"]]

/-- The body that reads a type, unless it has a method of its own as a composite. -/
def sharedBody? (t : TypeExpr) : Option (List Stmt) :=
  match t with
  | .scalar _ kind => some (scalarBody kind)
  | .enum _ name => some (enumBody name)
  | .array _ elem => some (arrayBody elem.csharp)
  | .list _ elem => some (listBody elem.csharp)
  | .dictionary _ _ value => some (dictionaryBody t.csharp value.csharp)
  | .composite _ _ => none

end Read

end Marshal.Conversion
