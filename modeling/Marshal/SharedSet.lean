import Marshal.SchemaError

/-!
# The set of shared conversions

Scalars, enums and collections have one conversion each, which all fields share. `SharedSet` holds
the types that need one, in the order of their canonical spellings. Two of them must not have the
same C# spelling, because their conversions would be the same overload.

Inserting a type walks along its chain of dependencies. The walk may fail in the middle; what it
has stored until then stays in the set.
-/

namespace Marshal

structure SharedSet where
  /-- The types, each behind its canonical spelling. -/
  entries : List (String × TypeExpr) := []
  /-- The C# spellings in use. -/
  spellings : List String := []
  deriving Repr, DecidableEq

namespace SharedSet

def empty : SharedSet := {}

/-- The types in the order of their canonical spellings, by code point. -/
def types (set : SharedSet) : List TypeExpr :=
  set.entries.map Prod.snd

def canonicals (set : SharedSet) : List String :=
  set.entries.map Prod.fst

def size (set : SharedSet) : Nat :=
  set.entries.length

def isEmpty (set : SharedSet) : Bool :=
  set.entries.isEmpty

/-- Whether a type of this canonical spelling is stored. -/
def contains (set : SharedSet) (canonical : String) : Bool :=
  set.canonicals.contains canonical

/-- Puts an entry before the first one with a greater key. -/
def place (key : String) (t : TypeExpr) : List (String × TypeExpr) → List (String × TypeExpr)
  | [] => [(key, t)]
  | entry :: rest =>
    if key < entry.1 then (key, t) :: entry :: rest else entry :: place key t rest

/-- Stores `t`, whose spellings are both new. -/
def store (set : SharedSet) (canonical csharp : String) (t : TypeExpr) : SharedSet where
  entries := place canonical t set.entries
  spellings := csharp :: set.spellings

/-- Stores the types of a chain one by one. The walk ends at a type that is stored already and at a
composite, which has a conversion of its own. -/
def walk (set : SharedSet) : List TypeExpr → SharedSet × Except SchemaError Unit
  | [] => (set, .ok ())
  | t :: rest =>
    if t.isNullable then (set, .error (.unsupported t.canonical))
    else if t.isComposite then (set, .ok ())
    else
      let canonical := t.canonical
      let csharp := t.csharp
      if set.contains canonical then (set, .ok ())
      else if set.spellings.contains csharp then (set, .error (.unsupported canonical))
      else walk (set.store canonical csharp t) rest

/-- Adds a type and all that it depends on. -/
def insert (set : SharedSet) (t : TypeExpr) : SharedSet × Except SchemaError Unit :=
  set.walk t.chain

/-- Adds what a field of type `t` needs. A nullable field is handled where the field is. -/
def track (set : SharedSet) (t : TypeExpr) : SharedSet × Except SchemaError Unit :=
  set.insert t.inner

theorem mem_place {key : String} {t : TypeExpr} {entries : List (String × TypeExpr)}
    {entry : String × TypeExpr} :
    entry ∈ place key t entries ↔ entry = (key, t) ∨ entry ∈ entries := by
  induction entries with
  | nil => simp [place]
  | cons e rest ih =>
      by_cases h : key < e.1
      · simp [place, h]
      · simp only [place, if_neg h, List.mem_cons, ih]
        grind

end SharedSet

end Marshal
