import Mathlib.Data.List.Count
import Marshal.Proofs.Conversion.Overloads
import Marshal.Proofs.Conversion.Receivers

/-!
# Calls find their methods

The shared set is closed under dependencies, so a body calls no conversion for which there is no
method. A call is tied to its method by a type: that of the part of a value that the call is on,
and, where a body has a variable for the part, the type that it declares the variable with. Main
statement: in the methods of a schema whose types are read from type strings, everything that a body
converts is a composite or has exactly one shared method (`calls_resolve`).
-/

namespace Marshal

namespace Conversion

open Code TypeExpr

theorem body_method (direction : Direction) (csharp : String) (body : List Stmt) :
    (method direction csharp body).body = body := by
  cases direction <;> rfl

theorem sharedBody?_of_sharedMethod {direction : Direction} {t : TypeExpr} {m : Method}
    (h : sharedMethod direction t = .ok m) : sharedBody? direction t = some m.body := by
  obtain ⟨body, hbody, rfl⟩ := sharedMethod_eq_ok h
  rw [hbody, body_method]

/-- The variables that a body converts have the types `parts`. A body that reads has a variable for
each of them. -/
structure PassesAs (direction : Direction) (parts : List TypeExpr) (body : List Stmt) : Prop where
  typed : ∀ type, Temporary direction body type → ∃ u ∈ parts, type = u.csharp
  passed : direction = .fromJson → ∀ u ∈ parts, Temporary direction body u.csharp

/-- The fields that are read through a variable, which is of the type without the mark. -/
def nullableParts (c : Composite) : List TypeExpr :=
  (c.fields.filter fun field => field.type.isNullable).map fun field => field.type.inner

theorem passesAs_composite (direction : Direction) (s : Schema) (c : Composite) :
    PassesAs direction (nullableParts c) (compositeMethod direction s c).body := by
  cases direction with
  | fromJson =>
    have hiff : ∀ type, Temporary .fromJson (compositeMethod .fromJson s c).body type ↔
        ∃ u ∈ nullableParts c, type = u.csharp := by
      intro type
      simp [compositeMethod, Read.compositeMethod, Read.method, temporary_readComposite_iff,
        nullableParts, and_assoc]
    exact ⟨fun type => (hiff type).1, fun _ u hu => (hiff _).2 ⟨u, hu, rfl⟩⟩
  | toJson =>
    exact ⟨fun type htype => absurd htype (not_temporary_writeComposite s c type), nofun⟩

theorem passesAs_shared {direction : Direction} {t : TypeExpr} {m : Method}
    (h : sharedMethod direction t = .ok m) : PassesAs direction t.dependency?.toList m.body := by
  have hbody := sharedBody?_of_sharedMethod h
  refine ⟨fun type htype => ?_, ?_⟩
  · obtain ⟨u, hu, htype⟩ := temporary_shared hbody htype
    exact ⟨u, Option.mem_toList.2 hu, htype⟩
  · rintro rfl u hu
    exact (temporary_read_iff hbody).2 ⟨u, Option.mem_toList.1 hu, rfl⟩

end Conversion

namespace Schema

open TypeExpr Conversion

/-- All types are read from type strings. -/
structure Parsed (s : Schema) : Prop where
  fields : ∀ c ∈ s.types, ∀ field ∈ c.fields, ∃ text, parse text = .ok field.type
  shared : ∀ t ∈ s.shared, ∃ text, parse text = .ok t

theorem Parsed.requested {s : Schema} (h : s.Parsed) : ∀ t ∈ s.requested, t.WellFormed := by
  intro t ht
  rcases List.mem_append.1 ht with ht | ht
  · obtain ⟨text, htext⟩ := h.shared t ht
    exact wellFormed_of_parse htext
  · obtain ⟨c, hc, ht⟩ := List.mem_flatMap.1 ht
    obtain ⟨field, hfield, rfl⟩ := List.mem_map.1 ht
    obtain ⟨text, htext⟩ := h.fields c hc field hfield
    exact (wellFormed_withNullable false field.type).2 (wellFormed_of_parse htext)

/-- A conversion of the type finds its method. For a composite it is the method of the declared
type, if that is declared; for any other type it is one of the shared methods, and the only one. -/
inductive Resolves (s : Schema) (direction : Direction) (converted : List Code.Method) :
    TypeExpr → Prop where
  | composite {name : String} (hmethod : name ∈ s.names → ∃ c ∈ s.types, c.name = name ∧
      IsOverload direction (TypeExpr.composite false name).csharp (compositeMethod direction s c)) :
      Resolves s direction converted (.composite false name)
  | shared {t : TypeExpr} (hplain : t.isNullable = false) (hshared : t.isComposite = false)
      (hone : (converted.map Code.Method.params).count (params direction t.csharp) = 1) :
      Resolves s direction converted t

theorem resolves_of_settled {s : Schema} {direction : Direction} {set : SharedSet}
    {converted : List Code.Method} (hset : set.Valid)
    (hconverted : List.Forall₂ (IsOverload direction) (set.types.map csharp) converted)
    {t : TypeExpr} (h : set.Settled t) : s.Resolves direction converted t := by
  obtain ⟨hplain, hcomposite | hmem⟩ := h
  · cases t with
    | composite b name =>
      obtain rfl : b = false := hplain
      refine .composite fun hname => ?_
      obtain ⟨c, hc, rfl⟩ := List.mem_map.1 hname
      exact ⟨c, hc, rfl, isOverload_compositeMethod direction s c⟩
    | _ => cases hcomposite
  · refine .shared hplain (hset.plain hmem).2 ?_
    rw [map_params hconverted, List.count_map_of_injective _ _ (params_injective direction)]
    exact List.count_eq_one_of_mem hset.distinct (List.mem_map_of_mem hmem)

/-! ## Main statement -/

/-- In the methods of a schema, the types of all fields resolve, and so do the types that the shared
types depend on. Bodies convert nothing else: the methods of composites call conversions on their
fields, and those of shared types on the parts of the type that it depends on, or not at all if it
depends on none. The variables that bodies declare for a conversion have the type of a nullable
field or of the dependency, spelled as in the parameters of the method. -/
theorem calls_resolve {s : Schema} (h : s.Parsed) {direction : Direction}
    {methods : List Code.Method} (hmethods : s.methods direction = .ok methods) :
    ∃ shared converted,
      methods = s.types.map (compositeMethod direction s) ++ converted ∧
      List.Forall₂ (fun t m => sharedMethod direction t = .ok m) shared converted ∧
      (∀ c ∈ s.types, (∀ field ∈ c.fields, s.Resolves direction converted field.type.inner) ∧
        CallsOnParts direction (FieldPart s c direction) (compositeMethod direction s c).body ∧
        PassesAs direction (nullableParts c) (compositeMethod direction s c).body) ∧
      (∀ t ∈ shared, ∀ u, u ∈ t.dependency? ↔ ∃ receiver, SharedPart direction t receiver u) ∧
      (∀ t ∈ shared, ∀ u ∈ t.dependency?, s.Resolves direction converted u) ∧
      List.Forall₂ (fun t m => CallsOnParts direction (SharedPart direction t) m.body ∧
        PassesAs direction t.dependency?.toList m.body ∧
        (Code.Every (fun stmt => ¬ Calls direction stmt) m.body ↔ t.dependency? = none))
        shared converted := by
  cases hset : s.sharedSet with
  | error e => simp [methods_of_sharedSet_error hset] at hmethods
  | ok set =>
    obtain ⟨hclosed, hcomplete, -⟩ := SharedSet.closed_empty.insertAll_ok h.requested hset
    obtain ⟨converted, hpairs, hok⟩ := methods_of_sharedSet_ok hset hclosed.toValid direction
    obtain rfl := Except.ok.inj (hmethods.symm.trans hok)
    have hresolves : ∀ t, set.Settled t → s.Resolves direction converted t := fun t =>
      resolves_of_settled hclosed.toValid (isOverload_converted hpairs)
    refine ⟨set.types, converted, rfl, hpairs, fun c hc => ⟨fun field hfield => ?_, ?_, ?_⟩,
      fun t _ u => (exists_sharedPart_iff direction).symm, fun t ht u hu => ?_, ?_⟩
    · have hfields : field.type.inner ∈ s.requested :=
        List.mem_append_right _ (List.mem_flatMap.2 ⟨c, hc, List.mem_map_of_mem hfield⟩)
      exact hresolves _ (hcomplete _ hfields _ (mem_chain_self _))
    · exact callsOnParts_composite direction s c
    · exact passesAs_composite direction s c
    · exact hresolves u (hclosed.complete t ht u (mem_chain_of_dependency hu))
    · refine hpairs.imp fun t m hm => ?_
      have hbody := sharedBody?_of_sharedMethod hm
      exact ⟨callsOnParts_shared hbody, passesAs_shared hm, calls_nothing_iff hbody⟩

/-- A nullable list of enums, and a dictionary of arrays of the type itself. -/
def nestedCar : Composite :=
  ⟨"Car", true, [⟨"colors", .list true (.enum false "Color")⟩,
    ⟨"rows", .dictionary false (.scalar false .int) (.array false (.composite false "Car"))⟩]⟩

def nestedFields : Schema where
  types := [nestedCar]

theorem calls_resolve_of_nestedFields :
    nestedFields.Parsed ∧ ∃ readers writers read written,
      nestedFields.methods .fromJson = .ok readers ∧ nestedFields.methods .toJson = .ok writers ∧
      nestedFields.Resolves .fromJson read (.list false (.enum false "Color")) ∧
      PassesAs .fromJson [.list false (.enum false "Color")]
        (Read.compositeMethod nestedCar).body ∧
      nestedFields.Resolves .toJson written (.list false (.enum false "Color")) ∧
      CallsOnParts .toJson (FieldPart nestedFields nestedCar .toJson)
        (Write.compositeMethod nestedFields nestedCar).body := by
  have hparsed : nestedFields.Parsed := by
    constructor
    · simp only [nestedFields, nestedCar, List.forall_mem_singleton, List.forall_mem_cons]
      exact ⟨⟨"List<enum Color>?", by decide +kernel⟩,
        ⟨"Dictionary<int, Car[]>", by decide +kernel⟩⟩
    · simp [nestedFields]
  obtain ⟨readers, hreaders⟩ : ∃ readers, nestedFields.methods .fromJson = .ok readers :=
    Outcome.exists_eq_ok (by decide +kernel)
  obtain ⟨writers, hwriters⟩ : ∃ writers, nestedFields.methods .toJson = .ok writers :=
    Outcome.exists_eq_ok (by decide +kernel)
  obtain ⟨_, read, -, -, hread, -⟩ := calls_resolve hparsed hreaders
  obtain ⟨_, written, -, -, hwritten, -⟩ := calls_resolve hparsed hwriters
  obtain ⟨hreadFields, -, hpasses⟩ := hread _ (List.mem_singleton_self _)
  obtain ⟨hwrittenFields, hcalls, -⟩ := hwritten _ (List.mem_singleton_self _)
  exact ⟨hparsed, readers, writers, read, written, hreaders, hwriters,
    hreadFields _ List.mem_cons_self, hpasses, hwrittenFields _ List.mem_cons_self, hcalls⟩

end Schema

end Marshal
