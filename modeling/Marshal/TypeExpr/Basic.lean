import Marshal.Scalar

/-!
# Type expressions

What a type string of a schema stands for. Every expression carries a flag that says whether the
type is nullable; `inner` is the expression without it. A type is spelled in two ways, and depends
on the types that its conversion converts in turn.
-/

namespace Marshal

inductive TypeExpr where
  | scalar (nullable : Bool) (kind : Scalar)
  | enum (nullable : Bool) (name : String)
  /-- A reference to a type that the schema may declare. -/
  | composite (nullable : Bool) (name : String)
  | array (nullable : Bool) (elem : TypeExpr)
  | list (nullable : Bool) (elem : TypeExpr)
  | dictionary (nullable : Bool) (key value : TypeExpr)
  deriving Repr, DecidableEq

namespace TypeExpr

def isNullable : TypeExpr → Bool
  | scalar nullable _ => nullable
  | enum nullable _ => nullable
  | composite nullable _ => nullable
  | array nullable _ => nullable
  | list nullable _ => nullable
  | dictionary nullable _ _ => nullable

def withNullable (nullable : Bool) : TypeExpr → TypeExpr
  | scalar _ kind => scalar nullable kind
  | enum _ name => enum nullable name
  | composite _ name => composite nullable name
  | array _ elem => array nullable elem
  | list _ elem => list nullable elem
  | dictionary _ key value => dictionary nullable key value

/-- The type without its own nullable mark; those of its parts stay. -/
def inner (t : TypeExpr) : TypeExpr :=
  t.withNullable false

def isComposite : TypeExpr → Bool
  | composite _ _ => true
  | _ => false

@[simp] theorem isNullable_withNullable (b : Bool) (t : TypeExpr) :
    (t.withNullable b).isNullable = b := by
  cases t <;> rfl

@[simp] theorem withNullable_withNullable (b c : Bool) (t : TypeExpr) :
    (t.withNullable c).withNullable b = t.withNullable b := by
  cases t <;> rfl

@[simp] theorem withNullable_isNullable (t : TypeExpr) : t.withNullable t.isNullable = t := by
  cases t <;> rfl

@[simp] theorem isComposite_withNullable (b : Bool) (t : TypeExpr) :
    (t.withNullable b).isComposite = t.isComposite := by
  cases t <;> rfl

/-! ## Spellings

The canonical spelling is the one that schemas use; the C# spelling is the one of generated code,
where the name of an enum stands alone. Both are instances of `spell`. -/

/-- Puts the nullable mark behind a spelling. -/
def mark (nullable : Bool) (spelling : String) : String :=
  if nullable then spelling ++ "?" else spelling

/-- The spelling in which `enumName` says how the name of an enum is written. -/
def spell (enumName : String → String) : TypeExpr → String
  | scalar nullable kind => mark nullable kind.keyword
  | enum nullable name => mark nullable (enumName name)
  | composite nullable name => mark nullable name
  | array nullable elem => mark nullable (spell enumName elem ++ "[]")
  | list nullable elem => mark nullable ("List<" ++ spell enumName elem ++ ">")
  | dictionary nullable key value =>
    mark nullable ("Dictionary<" ++ spell enumName key ++ ", " ++ spell enumName value ++ ">")

/-- The spelling in schemas. -/
def canonical : TypeExpr → String :=
  spell ("enum " ++ ·)

/-- The spelling in generated code. -/
def csharp : TypeExpr → String :=
  spell id

/-! ## Dependencies

The conversion of a collection converts its elements or values, and the conversion of an enum
converts the integer that stores it. A type therefore depends on a chain of further types. Keys of
dictionaries are written as text and are not part of it. -/

/-- The type that stores the values of an enum. -/
def enumStorage : Scalar := .int

/-- The type that the conversion of a type converts in turn. -/
def dependency? : TypeExpr → Option TypeExpr
  | enum _ _ => some (scalar false enumStorage)
  | array _ elem => some elem
  | list _ elem => some elem
  | dictionary _ _ value => some value
  | scalar _ _ => none
  | composite _ _ => none

/-- A type followed by all that it depends on. -/
def chain : TypeExpr → List TypeExpr
  | scalar nullable kind => [scalar nullable kind]
  | composite nullable name => [composite nullable name]
  | enum nullable name => [enum nullable name, scalar false enumStorage]
  | array nullable elem => array nullable elem :: chain elem
  | list nullable elem => list nullable elem :: chain elem
  | dictionary nullable key value => dictionary nullable key value :: chain value

theorem chain_eq (t : TypeExpr) : t.chain = t :: (t.dependency?.elim [] chain) := by
  cases t <;> rfl

end TypeExpr

end Marshal
