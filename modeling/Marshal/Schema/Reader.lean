import Marshal.Json.Basic
import Marshal.Schema.Basic
import Marshal.SchemaError

/-!
# Reading a schema document

Each top-level member declares a type, except `__slaves`, which lists types that are to have
conversions. In a declaration the keys that begin with two underscores are directives and declare
no field; of them only `__is_ref` has a meaning, and its mere presence marks a reference type. The
first member at fault decides the error.
-/

namespace Marshal

namespace Schema

def sharedKey : String := "__slaves"

def referenceKey : String := "__is_ref"

def isDirective (key : String) : Bool :=
  ['_', '_'].isPrefixOf key.toList

/-- Reads the declaration of one field of the type `type`. -/
def readField (type : String) (member : String × Json) : Except SchemaError Field :=
  match member.2 with
  | .str text => (TypeExpr.parse text).map (Field.mk member.1)
  | _ => .error (.fieldTypeNotString type member.1)

/-- Whether the members of a declaration mark a reference type. -/
def readReferenceMark (type : String) (members : List (String × Json)) :
    Except SchemaError Bool :=
  match members.lookup referenceKey with
  | none => .ok false
  | some (.bool _) => .ok true
  | some _ => .error (.referenceMarkNotBool type)

def readComposite (name : String) (members : List (String × Json)) :
    Except SchemaError Composite := do
  let isRef ← readReferenceMark name members
  let fields ← (members.filter fun m => !isDirective m.1).mapM (readField name)
  return { name, isRef, fields }

/-- Reads an item of the list of shared types, given with its index. -/
def readShared (item : Json × Nat) : Except SchemaError TypeExpr :=
  match item.1 with
  | .str text => do
    let t ← TypeExpr.parse text
    if t.isComposite then .error (.sharedComposite text)
    else if t.isNullable then .error (.unsupported text)
    else .ok t
  | _ => .error (.sharedNotString item.2)

/-- What a top-level member says. -/
inductive Entry where
  | type (c : Composite)
  | shared (types : List TypeExpr)
  deriving Repr, DecidableEq

def readEntry (member : String × Json) : Except SchemaError Entry :=
  if member.1 = sharedKey then
    match member.2 with
    | .arr items => (items.zipIdx.mapM readShared).map Entry.shared
    | _ => .error .sharedNotArray
  else
    match member.2 with
    | .obj members => (readComposite member.1 members).map Entry.type
    | _ => .error (.descriptionNotObject member.1)

def addEntry (s : Schema) : Entry → Schema
  | .type c => s.addType c
  | .shared types => s.addShared types

def ofJson : Json → Except SchemaError Schema
  | .obj members => do
    let entries ← members.mapM readEntry
    return entries.foldl addEntry empty
  | _ => .error .rootNotObject

end Schema

end Marshal
