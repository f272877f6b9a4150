import Marshal.Conversion.Read
import Marshal.Conversion.Write
import Marshal.SharedSet

/-!
# The methods of a schema

One method for every declared composite, in the order of declaration, and then one for every shared
type, in the order of the shared set. The set holds what the schema lists and what its fields need.
-/

namespace Marshal

namespace Conversion

def compositeMethod (direction : Direction) (s : Schema) (c : Composite) : Code.Method :=
  match direction with
  | .fromJson => Read.compositeMethod c
  | .toJson => Write.compositeMethod s c

def sharedBody? : Direction → TypeExpr → Option (List Code.Stmt)
  | .fromJson => Read.sharedBody?
  | .toJson => Write.sharedBody?

/-- The method that converts values of the type spelled `csharp`. -/
def method : Direction → String → List Code.Stmt → Code.Method
  | .fromJson => Read.method
  | .toJson => Write.method

/-- The shared method of a type; nullable types and composites have none. -/
def sharedMethod (direction : Direction) (t : TypeExpr) : Except SchemaError Code.Method :=
  if t.isNullable then .error (.unsupported t.canonical)
  else
    match sharedBody? direction t with
    | some body => .ok (method direction t.csharp body)
    | none => .error (.unsupported t.canonical)

end Conversion

namespace SharedSet

/-- Inserts types one after another and stops at the first error. -/
def insertAll (set : SharedSet) : List TypeExpr → Except SchemaError SharedSet
  | [] => .ok set
  | t :: rest =>
    match set.insert t with
    | (set, .ok ()) => insertAll set rest
    | (_, .error e) => .error e

end SharedSet

namespace Schema

/-- The types whose conversions are asked for: those listed, and those of all fields. -/
def requested (s : Schema) : List TypeExpr :=
  s.shared ++ s.types.flatMap fun c => c.fields.map fun field => field.type.inner

def sharedSet (s : Schema) : Except SchemaError SharedSet :=
  SharedSet.empty.insertAll s.requested

/-- All methods of one direction, or the first error. -/
def methods (s : Schema) (direction : Direction) : Except SchemaError (List Code.Method) := do
  let set ← s.sharedSet
  let shared ← set.types.mapM (Conversion.sharedMethod direction)
  return s.types.map (Conversion.compositeMethod direction s) ++ shared

end Schema

end Marshal
