import Marshal.TypeExpr.Basic

/-!
# Schemas

A schema declares composite types, in order and with distinct names, and lists further types that
are to have conversions although no field needs them.
-/

namespace Marshal

structure Field where
  name : String
  type : TypeExpr
  deriving Repr, DecidableEq

/-- A declared type. It has the semantics of a reference or of a value. -/
structure Composite where
  name : String
  isRef : Bool
  fields : List Field
  deriving Repr, DecidableEq

def Composite.addField (field : Field) (c : Composite) : Composite :=
  { c with fields := c.fields ++ [field] }

structure Schema where
  types : List Composite := []
  shared : List TypeExpr := []
  distinct : (types.map Composite.name).Nodup := by decide
  deriving Repr, DecidableEq

namespace Schema

theorem eq_of_types_of_shared {s s' : Schema} (htypes : s.types = s'.types)
    (hshared : s.shared = s'.shared) : s = s' := by
  cases s
  cases s'
  cases htypes
  cases hshared
  rfl

def empty : Schema := {}

def names (s : Schema) : List String :=
  s.types.map Composite.name

def type? (s : Schema) (name : String) : Option Composite :=
  s.types.find? fun c => c.name == name

/-- Puts `c` in the place of the type of its name, or else at the end. -/
def insertType (c : Composite) : List Composite → List Composite
  | [] => [c]
  | d :: rest => if d.name = c.name then c :: rest else d :: insertType c rest

theorem names_insertType (c : Composite) (types : List Composite) :
    (insertType c types).map Composite.name =
      if c.name ∈ types.map Composite.name then types.map Composite.name
      else types.map Composite.name ++ [c.name] := by
  induction types with
  | nil => rfl
  | cons d rest ih =>
      by_cases h : d.name = c.name
      · simp [insertType, h]
      · rw [insertType, if_neg h, List.map_cons, ih]
        by_cases hm : c.name ∈ rest.map Composite.name
        · simp [hm]
        · simp [hm, Ne.symm h]

theorem mem_insertType {c d : Composite} {types : List Composite} (h : d ∈ insertType c types) :
    d = c ∨ d ∈ types := by
  induction types with
  | nil => exact .inl (List.mem_singleton.1 h)
  | cons e rest ih =>
      unfold insertType at h
      split at h
      · exact (List.mem_cons.1 h).imp_right (List.mem_cons_of_mem e)
      · rcases List.mem_cons.1 h with rfl | h
        · exact .inr List.mem_cons_self
        · exact (ih h).imp_right (List.mem_cons_of_mem e)

theorem nodup_insertType {c : Composite} {types : List Composite}
    (h : (types.map Composite.name).Nodup) : ((insertType c types).map Composite.name).Nodup := by
  rw [names_insertType]
  split
  · exact h
  · next hc =>
    refine List.nodup_append.2 ⟨h, by simp, ?_⟩
    rintro a ha b hb rfl
    exact hc (List.mem_singleton.1 hb ▸ ha)

/-- Declares `c`, which replaces an earlier type of its name. -/
def addType (s : Schema) (c : Composite) : Schema where
  types := insertType c s.types
  shared := s.shared
  distinct := nodup_insertType s.distinct

/-- Lists further types that are to have conversions. -/
def addShared (s : Schema) (types : List TypeExpr) : Schema :=
  { s with shared := s.shared ++ types }

/-- Appends a field to the type `name`, if it is declared. -/
def addField (s : Schema) (name : String) (field : Field) : Schema where
  types := s.types.map fun c => if c.name = name then c.addField field else c
  shared := s.shared
  distinct := by
    have h : ∀ c : Composite,
        Composite.name (if c.name = name then c.addField field else c) = c.name := by
      intro c
      split <;> rfl
    simpa [List.map_map, Function.comp_def, h] using s.distinct

end Schema

end Marshal
