import Marshal.Proofs.Code.Scopes
import Marshal.Proofs.Conversion.Mirror
import Marshal.Proofs.Conversion.Resolution
import Marshal.Proofs.Conversion.Texts

/-!
# Methods are legal code

A method that reads returns without a value wherever it returns. One that writes returns with a
value wherever it returns, and it does so at its end. No conditional lacks a branch. A local
variable never has the name of a parameter or of another variable of its scope or of one around it:
the variables of nullable fields have one name, but stand in scopes apart. Main statement: all
methods are legal in this sense, those of composites whatever their fields are (`methods_isLegal`).
-/

namespace Marshal

namespace Code

/-- A method that reads returns without a value, and one that writes with a text that is not
empty. -/
def LegalReturn : Direction → Option String → Prop
  | .fromJson, value => value = none
  | .toJson, value => ∃ text ∈ value, text ≠ ""

/-- The statement, if it is a return, is one for methods of this direction. -/
@[simp] def Stmt.ReturnsAs (direction : Direction) : Stmt → Prop
  | .ret value => LegalReturn direction value
  | _ => True

/-- The names of the parameters, in one direction or the other. -/
def reservedNames : List String :=
  ["type", "val"]

/-- A body is legal in a method of this direction. -/
structure IsLegalBody (direction : Direction) (body : List Stmt) : Prop where
  branched : Every Stmt.HasBranch body
  returns : Every (Stmt.ReturnsAs direction) body
  /-- A method that writes ends with a return. -/
  ends : direction = .toJson → ∃ value, body.getLast? = some (.ret (some value)) ∧ value ≠ ""
  fits : Fits reservedNames body

/-- A method of this direction is legal. -/
structure Method.IsLegal (direction : Direction) (m : Method) : Prop
    extends IsLegalBody direction m.body where
  params : m.paramNames ⊆ reservedNames
  /-- A method that reads has no result. -/
  void : direction = .fromJson → m.returnType = "void"

/-- The statements of a block are legal in a method of this direction, if the names `visible` are
visible in the block. -/
def LegalIn (direction : Direction) (visible : List String) (block : List Stmt) : Prop :=
  Every (Stmt.ReturnsAs direction) block ∧ ∀ stmt ∈ block, stmt.FitsIn visible

section LegalIn

variable {direction : Direction} {visible : List String}

@[simp] theorem legalIn_nil : LegalIn direction visible [] := by
  simp [LegalIn]

@[simp] theorem legalIn_cons {stmt : Stmt} {rest : List Stmt} :
    LegalIn direction visible (stmt :: rest) ↔
      ((stmt.ReturnsAs direction ∧ stmt.Inside (Stmt.ReturnsAs direction)) ∧
        stmt.FitsIn visible) ∧ LegalIn direction visible rest := by
  simp only [LegalIn, every_cons, List.forall_mem_cons, and_and_and_comm]

@[simp] theorem legalIn_append {block rest : List Stmt} :
    LegalIn direction visible (block ++ rest) ↔
      LegalIn direction visible block ∧ LegalIn direction visible rest := by
  simp only [LegalIn, every_append, List.forall_mem_append, and_and_and_comm]

@[simp] theorem legalIn_flatMap {α : Type} {items : List α} {f : α → List Stmt} :
    LegalIn direction visible (items.flatMap f) ↔
      ∀ item ∈ items, LegalIn direction visible (f item) := by
  simp only [LegalIn, every_flatMap, List.forall_mem_flatMap, imp_and, forall_and]

/-- A body is legal if its statements are, with its own variables visible. -/
theorem isLegalBody_of_legalIn {body : List Stmt} (hbranched : Every Stmt.HasBranch body)
    (h : LegalIn direction (locals body ++ reservedNames) body) (hnodup : (locals body).Nodup)
    (hnew : ∀ name ∈ locals body, name ∉ reservedNames)
    (hends : direction = .toJson →
      ∃ value, body.getLast? = some (.ret (some value)) ∧ value ≠ "") :
    IsLegalBody direction body where
  branched := hbranched
  returns := h.1
  ends := hends
  fits := fits_iff.2 ⟨hnodup, hnew, h.2⟩

end LegalIn

end Code

namespace Conversion

open Code TypeExpr

theorem startVariable?_index : startVariable? "int i = 0" = some "i" := by
  decide

/-! ## Composites -/

/-- The variable for the value of a nullable field is local to the branch that reads the field. -/
theorem legal_readField (field : Field) :
    LegalIn .fromJson ("root" :: reservedNames) [Read.readField field] := by
  unfold Read.readField
  split <;> simp [Read.nullableField, Read.plainField, Read.defaultValue, Read.call, Stmt.when,
    Stmt.define, fits_iff, reservedNames]

theorem legal_composite_read (c : Composite) : IsLegalBody .fromJson (Read.compositeBody c) := by
  have hlocals : locals (Read.compositeBody c) = ["root"] := declared_read c
  have hallocate : LegalIn .fromJson ("root" :: reservedNames) (Read.allocateIfNull c.name) := by
    simp [Read.allocateIfNull, Stmt.when, fits_iff]
  have hbody : LegalIn .fromJson ("root" :: reservedNames) (Read.compositeBody c) := by
    rw [Read.compositeBody, legalIn_append, legalIn_append, legalIn_flatMap]
    refine ⟨⟨?_, ?_⟩, fun field _ => ?_⟩
    · split
      · exact hallocate
      · exact legalIn_nil
    · simp [Stmt.when, Stmt.define, fits_iff, LegalReturn]
    · simpa using legal_readField field
  have hplain : Every (Stmt.IsPlain []) (Read.compositeBody c) :=
    plain_composite_read (List.nil_subset _) (by simp [Text.Free]) (by simp [Text.Free])
  refine isLegalBody_of_legalIn (every_isPlain_iff.1 hplain).2 ?_ ?_ ?_ fun hto => by cases hto
  · rwa [hlocals]
  · simp [hlocals]
  · simp [hlocals, reservedNames]

theorem legal_nullGuard (visible : List String) : LegalIn .toJson visible Write.nullGuard := by
  simp [Write.nullGuard, Write.make, jsonType, Stmt.when, fits_iff, LegalReturn]

theorem legal_writeField (s : Schema) (field : Field) (visible : List String) :
    LegalIn .toJson visible [Write.writeField s field] := by
  unfold Write.writeField
  split <;> simp [Stmt.when, fits_iff]

theorem declared?_writeField (s : Schema) (field : Field) :
    (Write.writeField s field).declared? = none := by
  unfold Write.writeField
  split <;> rfl

/-- The body that writes a composite declares no variable but `root`. -/
theorem declared_write (s : Schema) (c : Composite) :
    locals (Write.compositeBody s c) = ["root"] := by
  have hguard : locals (if c.isRef then Write.nullGuard else []) = [] := by
    split <;> simp [Write.nullGuard, Stmt.when]
  have hfields : locals (c.fields.map (Write.writeField s)) = [] :=
    locals_eq_nil (List.forall_mem_map.2 fun field _ => declared?_writeField s field)
  simp [Write.compositeBody, hguard, hfields, Stmt.construct]

theorem legal_composite_write (s : Schema) (c : Composite) :
    IsLegalBody .toJson (Write.compositeBody s c) := by
  have hlocals := declared_write s c
  have hbody : LegalIn .toJson ("root" :: reservedNames) (Write.compositeBody s c) := by
    rw [Write.compositeBody, List.map_eq_flatMap]
    simp only [legalIn_append, legalIn_flatMap]
    refine ⟨⟨⟨?_, ?_⟩, fun field _ => legal_writeField s field _⟩, ?_⟩
    · split
      · exact legal_nullGuard _
      · exact legalIn_nil
    · simp [Stmt.construct]
    · simp [Write.make, jsonType, LegalReturn]
  have hplain : Every (Stmt.IsPlain []) (Write.compositeBody s c) :=
    plain_composite_write (List.nil_subset _) s (by simp [Text.Free])
  refine isLegalBody_of_legalIn (every_isPlain_iff.1 hplain).2 ?_ ?_ ?_ fun _ => ?_
  · rwa [hlocals]
  · simp [hlocals]
  · simp [hlocals, reservedNames]
  · refine ⟨Write.make "root", ?_, by simp [Write.make, jsonType]⟩
    rw [Write.compositeBody, List.getLast?_append_of_ne_nil _ (List.cons_ne_nil _ _)]
    rfl

/-! ## Shared types -/

theorem legal_scalar_read (kind : Scalar) :
    Every (Stmt.ReturnsAs .fromJson) (Read.scalarBody kind) ∧
      Fits reservedNames (Read.scalarBody kind) := by
  unfold Read.scalarBody
  split <;> simp [Read.numberBody, Read.whenPresent, Stmt.when, Stmt.define, fits_iff,
    reservedNames]

theorem legal_shared_read {t : TypeExpr} {body : List Stmt}
    (h : Read.sharedBody? t = some body) :
    Every (Stmt.ReturnsAs .fromJson) body ∧ Fits reservedNames body := by
  cases t with
  | scalar b kind =>
    obtain rfl := Option.some.inj h
    exact legal_scalar_read kind
  | enum b name | array b elem | list b elem | dictionary b key value =>
    obtain rfl := Option.some.inj h
    simp [Read.enumBody, Read.arrayBody, Read.listBody, Read.sequenceBody, Read.dictionaryBody,
      Read.whenPresent, Read.defaultValue, Read.call, Stmt.when, Stmt.define, fits_iff,
      reservedNames, startVariable?_index]
  | composite => cases h

theorem legal_scalar_write (kind : Scalar) :
    (Every (Stmt.ReturnsAs .toJson) (Write.scalarBody kind) ∧
      Fits reservedNames (Write.scalarBody kind)) ∧
      ∃ value, (Write.scalarBody kind).getLast? = some (.ret (some value)) ∧ value ≠ "" := by
  unfold Write.scalarBody
  split <;> simp [Write.numberBody, Write.make, jsonType, Stmt.construct, Stmt.define, fits_iff,
    reservedNames, LegalReturn]

theorem legal_shared_write {t : TypeExpr} {body : List Stmt}
    (h : Write.sharedBody? t = some body) :
    (Every (Stmt.ReturnsAs .toJson) body ∧ Fits reservedNames body) ∧
      ∃ value, body.getLast? = some (.ret (some value)) ∧ value ≠ "" := by
  cases t with
  | scalar b kind =>
    obtain rfl := Option.some.inj h
    exact legal_scalar_write kind
  | enum b name | array b elem | list b elem | dictionary b key value =>
    obtain rfl := Option.some.inj h
    simp [Write.enumBody, Write.sequenceBody, Write.dictionaryBody, Write.nullGuard, Write.make,
      Write.call, Write.methodName, jsonType, Stmt.when, Stmt.define, Stmt.construct, fits_iff,
      reservedNames, startVariable?_index, LegalReturn]
  | composite => cases h

theorem legal_sharedBody {direction : Direction} {t : TypeExpr} {body : List Stmt}
    (h : sharedBody? direction t = some body) : IsLegalBody direction body := by
  have hplain : Every (Stmt.IsPlain []) body :=
    plain_sharedBody (List.nil_subset _) h (by simp [Text.Free])
  have hbranched := (every_isPlain_iff.1 hplain).2
  cases direction with
  | fromJson =>
    obtain ⟨hreturns, hfits⟩ := legal_shared_read h
    exact ⟨hbranched, hreturns, (fun hto => by cases hto), hfits⟩
  | toJson =>
    obtain ⟨⟨hreturns, hfits⟩, hends⟩ := legal_shared_write h
    exact ⟨hbranched, hreturns, fun _ => hends, hfits⟩

/-! ## Methods -/

theorem paramNames_method (direction : Direction) (csharp : String) (body : List Stmt) :
    (method direction csharp body).paramNames ⊆ reservedNames := by
  have htype : lastWord ("this " ++ jsonType ++ " type").toList = "type" := by decide
  have hval : ∀ before : String, lastWord (before ++ " val").toList = "val" := fun before => by
    rw [String.toList_append]
    exact lastWord_append (by decide) before.toList
  cases direction with
  | fromJson =>
    simp only [method, Read.method, Method.paramNames, List.map_cons, List.map_nil, htype, hval]
    exact List.Subset.refl _
  | toJson =>
    simp only [method, Write.method, Method.paramNames, List.map_cons, List.map_nil, hval]
    exact List.subset_cons_self _ _

theorem isLegal_method {direction : Direction} {body : List Stmt} (csharp : String)
    (h : IsLegalBody direction body) : (method direction csharp body).IsLegal direction where
  toIsLegalBody := by rwa [body_method]
  params := paramNames_method direction csharp body
  void := by
    rintro rfl
    rfl

theorem isLegal_compositeMethod (direction : Direction) (s : Schema) (c : Composite) :
    (compositeMethod direction s c).IsLegal direction := by
  cases direction with
  | fromJson => exact isLegal_method c.name (legal_composite_read c)
  | toJson => exact isLegal_method c.name (legal_composite_write s c)

theorem isLegal_sharedMethod {direction : Direction} {t : TypeExpr} {m : Method}
    (h : sharedMethod direction t = .ok m) : m.IsLegal direction := by
  obtain ⟨body, hbody, rfl⟩ := sharedMethod_eq_ok h
  exact isLegal_method t.csharp (legal_sharedBody hbody)

/-! ## Main statement -/

/-- All methods are legal: those of composites, whatever their fields are, those of shared types,
and hence all that a schema has. -/
theorem methods_isLegal :
    (∀ (direction : Direction) (s : Schema) (c : Composite),
      (compositeMethod direction s c).IsLegal direction) ∧
    (∀ (direction : Direction) (t : TypeExpr) (m : Method),
      sharedMethod direction t = .ok m → m.IsLegal direction) ∧
    ∀ (direction : Direction) (s : Schema) (methods : List Method),
      s.methods direction = .ok methods → ∀ m ∈ methods, m.IsLegal direction := by
  refine ⟨isLegal_compositeMethod, fun direction t m => isLegal_sharedMethod,
    fun direction s methods hmethods => ?_⟩
  cases hset : s.sharedSet with
  | error e => simp [Schema.methods_of_sharedSet_error hset] at hmethods
  | ok set =>
    obtain ⟨hvalid, -⟩ := SharedSet.valid_empty.insertAll hset
    obtain ⟨converted, hpairs, hok⟩ := Schema.methods_of_sharedSet_ok hset hvalid direction
    obtain rfl := Except.ok.inj (hmethods.symm.trans hok)
    refine List.forall_mem_append.2 ⟨List.forall_mem_map.2 fun c _ => ?_, ?_⟩
    · exact isLegal_compositeMethod direction s c
    · exact Outcome.forall_of_forall₂ hpairs fun t _ m hm => isLegal_sharedMethod hm

/-- A reference type with two nullable fields, each of which is read through a variable. -/
def twinNode : Composite :=
  ⟨"Node", true, [⟨"left", .composite true "Node"⟩, ⟨"right", .composite true "Node"⟩]⟩

/-- The method that reads a node is legal, and so is the method that writes arrays of numbers. -/
theorem twinNode_isLegal :
    (∃ m, ({ types := [twinNode] } : Schema).methods .fromJson = .ok [m] ∧ m.IsLegal .fromJson) ∧
    ∃ m, sharedMethod .toJson (array false (scalar false .int)) = .ok m ∧ m.IsLegal .toJson := by
  obtain ⟨-, hshared, hall⟩ := methods_isLegal
  refine ⟨⟨_, rfl, hall .fromJson { types := [twinNode] } _ rfl _ (List.mem_singleton_self _)⟩,
    ⟨_, rfl, hshared .toJson (array false (scalar false .int)) _ rfl⟩⟩

end Conversion

end Marshal
