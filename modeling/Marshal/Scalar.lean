/-!
# Built-in scalar types

The keywords are told apart exactly: they are distinct, and no other word is one.
-/

namespace Marshal

/-- The types with a keyword of their own. -/
inductive Scalar where
  | sbyte
  | byte
  | short
  | ushort
  | int
  | uint
  | long
  | ulong
  | float
  | double
  | decimal
  | bool
  | string
  deriving Repr, DecidableEq

namespace Scalar

/-- All scalars, in the order of declaration. -/
def all : List Scalar :=
  [sbyte, byte, short, ushort, int, uint, long, ulong, float, double, decimal, bool, string]

def keyword : Scalar → String
  | sbyte => "sbyte"
  | byte => "byte"
  | short => "short"
  | ushort => "ushort"
  | int => "int"
  | uint => "uint"
  | long => "long"
  | ulong => "ulong"
  | float => "float"
  | double => "double"
  | decimal => "decimal"
  | bool => "bool"
  | string => "string"

def ofKeyword? (word : String) : Option Scalar :=
  all.find? fun s => s.keyword == word

/-- The place of a scalar in `all`. -/
def index (s : Scalar) : Nat :=
  all.idxOf s

/-- Whether values are read from and written as JSON numbers. -/
def isNumeric : Scalar → Bool
  | bool => false
  | string => false
  | _ => true

theorem mem_all (s : Scalar) : s ∈ all := by
  cases s <;> decide

theorem ofKeyword?_eq_some {word : String} {s : Scalar} :
    ofKeyword? word = some s ↔ s.keyword = word := by
  constructor
  · intro h
    simpa using List.find?_some h
  · rintro rfl
    cases s <;> decide

theorem ofKeyword?_eq_none {word : String} :
    ofKeyword? word = none ↔ ∀ s : Scalar, s.keyword ≠ word := by
  simp [ofKeyword?, mem_all]

end Scalar

end Marshal
