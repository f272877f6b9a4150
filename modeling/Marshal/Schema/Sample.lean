import Marshal.Json.Basic

/-!
# Sample documents

A schema document of any size, in which every type has fields of all kinds and refers to the next
type. The shared types stay the same however many types there are.
-/

namespace Marshal

namespace Schema

def sampleName (index : Nat) : String :=
  "Type" ++ toString index

/-- The fields that every sample type has. -/
def sampleFields : List (String × Json) :=
  [("id", .str "long"), ("name", .str "string"), ("score", .str "double?"),
    ("tags", .str "List<string>"), ("grid", .str "int[][]"),
    ("metrics", .str "Dictionary<string, decimal>"), ("color", .str "enum Color")]

/-- The declaration of the sample type `index` out of `count`. All but the last have a field of the
next type, and every other type is a reference type. -/
def sampleType (count index : Nat) : Json :=
  .obj (sampleFields
    ++ (if index + 1 < count then [("next", .str (sampleName (index + 1)))] else [])
    ++ (if index % 2 = 0 then [("__is_ref", .bool true)] else []))

def sampleDocument (count : Nat) : Json :=
  .obj ((List.range count).map fun index => (sampleName index, sampleType count index))

end Schema

end Marshal
