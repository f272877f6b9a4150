import Marshal.Proofs.Conversion.Success

/-!
# Overloads of a generated class

The methods of a class have one name, so that their parameters have to tell them apart. The
parameters name the converted type by its C# spelling, and say nothing else of it. Composites are
told apart by their names and shared types by their spellings, but nothing keeps a composite from
having the spelling of a shared type: an enum is spelled by its name. Main statement: this is the
only way in which two methods of a class get the same parameters (`params_nodup_iff`).
-/

namespace Marshal

namespace Conversion

/-! ## Parameters -/

def methodName : Direction → String
  | .fromJson => Read.methodName
  | .toJson => Write.methodName

/-- The parameters of the method that converts values of the type spelled `csharp`. -/
def params : Direction → String → List String
  | .fromJson, csharp => ["this " ++ jsonType ++ " type", "ref " ++ csharp ++ " val"]
  | .toJson, csharp => ["this " ++ csharp ++ " val"]

theorem params_injective (direction : Direction) : Function.Injective (params direction) := by
  intro a b h
  cases direction with
  | fromJson => simpa [params, String.append_left_inj, String.append_right_inj] using h
  | toJson => simpa [params, String.append_left_inj, String.append_right_inj] using h

/-- The method is the overload for the type spelled `csharp`. -/
structure IsOverload (direction : Direction) (csharp : String) (m : Code.Method) : Prop where
  name : m.name = methodName direction
  params : m.params = params direction csharp

theorem isOverload_method (direction : Direction) (csharp : String) (body : List Code.Stmt) :
    IsOverload direction csharp (method direction csharp body) := by
  cases direction <;> exact ⟨rfl, rfl⟩

theorem isOverload_compositeMethod (direction : Direction) (s : Schema) (c : Composite) :
    IsOverload direction c.name (compositeMethod direction s c) := by
  cases direction <;> exact ⟨rfl, rfl⟩

theorem isOverload_sharedMethod {direction : Direction} {t : TypeExpr} {m : Code.Method}
    (h : sharedMethod direction t = .ok m) : IsOverload direction t.csharp m := by
  obtain ⟨body, -, rfl⟩ := sharedMethod_eq_ok h
  exact isOverload_method direction t.csharp body

theorem map_params {direction : Direction} {spellings : List String} {methods : List Code.Method}
    (h : List.Forall₂ (IsOverload direction) spellings methods) :
    methods.map Code.Method.params = spellings.map (params direction) := by
  induction h with
  | nil => rfl
  | cons hm _ ih => rw [List.map_cons, List.map_cons, ih, hm.params]

/-- Overloads are told apart exactly if the spellings of their types are. -/
theorem nodup_params_iff {direction : Direction} {spellings : List String}
    {methods : List Code.Method} (h : List.Forall₂ (IsOverload direction) spellings methods) :
    (methods.map Code.Method.params).Nodup ↔ spellings.Nodup := by
  rw [map_params h, List.nodup_map_iff (params_injective direction)]

theorem name_of_isOverload {direction : Direction} {spellings : List String}
    {methods : List Code.Method} (h : List.Forall₂ (IsOverload direction) spellings methods) :
    ∀ m ∈ methods, m.name = methodName direction := by
  induction h with
  | nil => simp
  | cons hm _ ih => exact List.forall_mem_cons.2 ⟨hm.name, ih⟩

end Conversion

namespace Schema

open TypeExpr

/-! ## Spellings of the converted types -/

theorem isOverload_composites (s : Schema) (direction : Direction) :
    List.Forall₂ (Conversion.IsOverload direction) s.names
      (s.types.map (Conversion.compositeMethod direction s)) := by
  rw [names, List.forall₂_map_left_iff, List.forall₂_map_right_iff, List.forall₂_same]
  intro c _
  exact Conversion.isOverload_compositeMethod direction s c

theorem isOverload_converted {direction : Direction} {shared : List TypeExpr}
    {converted : List Code.Method}
    (h : List.Forall₂ (fun t m => Conversion.sharedMethod direction t = .ok m) shared converted) :
    List.Forall₂ (Conversion.IsOverload direction) (shared.map csharp) converted := by
  rw [List.forall₂_map_left_iff]
  exact h.imp fun _ _ hm => Conversion.isOverload_sharedMethod hm

/-- The shared types of a convertible schema have different C# spellings. -/
theorem Convertible.nodup_csharp {s : Schema} (h : s.Convertible) {shared : List TypeExpr}
    (hsorted : shared.Pairwise fun t u => t.canonical < u.canonical)
    (hmem : ∀ t ∈ shared, t ∈ s.neededTypes) : (shared.map csharp).Nodup := by
  rw [List.Nodup, List.pairwise_map]
  apply hsorted.imp_of_mem
  intro t u ht hu hlt heq
  exact h.no_collision u (hmem u hu) ⟨t, hmem t ht, hlt.ne, heq⟩

/-! ## Main statement -/

/-- All methods of a class have the same name. The parameters tell the methods of the composites
apart, and those of the shared types. They tell all methods apart exactly if no declared composite
has the C# spelling of a shared type as its name. -/
theorem params_nodup_iff {document : Json} {direction : Direction} {options : Options}
    {code : String} (h : Marshal.generate document direction options = .ok code) :
    ∃ s methods converted, ofJson document = .ok s ∧ s.methods direction = .ok methods ∧
      code = (unitOf direction options methods).render ∧
      methods = s.types.map (Conversion.compositeMethod direction s) ++ converted ∧
      (∀ m ∈ methods, m.name = Conversion.methodName direction) ∧
      ((s.types.map (Conversion.compositeMethod direction s)).map Code.Method.params).Nodup ∧
      (converted.map Code.Method.params).Nodup ∧
      ((methods.map Code.Method.params).Nodup ↔
        ∀ c ∈ s.types, ∀ t ∈ s.neededTypes, c.name ≠ t.csharp) := by
  obtain ⟨s, hs, hcode⟩ := Outcome.bind_eq_ok_iff.1 h
  obtain ⟨methods, hmethods, hcode⟩ := Outcome.bind_eq_ok_iff.1 hcode
  rcases (wellFormed_of_ofJson hs).methods_cases direction with
    ⟨hconvertible, shared, converted, hsorted, hmem, hpairs, hok⟩ | ⟨-, t, -, herr⟩
  · obtain rfl := Except.ok.inj (hmethods.symm.trans hok)
    have hcomposites := isOverload_composites s direction
    have hconverted := isOverload_converted hpairs
    have hall := List.rel_append hcomposites hconverted
    have hspellings := hconvertible.nodup_csharp hsorted fun t => (hmem t).1
    refine ⟨s, _, converted, hs, hmethods, (Except.ok.inj hcode).symm, rfl,
      Conversion.name_of_isOverload hall, (Conversion.nodup_params_iff hcomposites).2 s.distinct,
      (Conversion.nodup_params_iff hconverted).2 hspellings, ?_⟩
    rw [Conversion.nodup_params_iff hall, List.nodup_append]
    constructor
    · rintro ⟨-, -, hne⟩ c hc t ht
      exact hne _ (List.mem_map_of_mem hc) _ (List.mem_map_of_mem ((hmem t).2 ht))
    · intro hne
      refine ⟨s.distinct, hspellings, fun name hname spelling hspelling => ?_⟩
      obtain ⟨c, hc, rfl⟩ := List.mem_map.1 hname
      obtain ⟨t, ht, rfl⟩ := List.mem_map.1 hspelling
      exact hne c hc t ((hmem t).1 ht)
  · rw [hmethods] at herr
    cases herr

/-- A composite with a list of enums and a field of another composite, and an enum that is
listed. -/
def enumsWithoutComposite : Json :=
  .obj [("__slaves", .arr [.str "enum Paint"]), ("Wheel", .obj []),
    ("Car", .obj [("colors", .str "List<enum Color>?"), ("front", .str "Wheel")])]

theorem params_nodup_of_enumsWithoutComposite :
    ∃ code s methods, Marshal.generate enumsWithoutComposite .fromJson {} = .ok code ∧
      ofJson enumsWithoutComposite = .ok s ∧ s.methods .fromJson = .ok methods ∧
      (methods.map Code.Method.params).Nodup := by
  have hread : ofJson enumsWithoutComposite = .ok {
      types := [⟨"Wheel", false, []⟩, ⟨"Car", false, [⟨"colors", .list true (.enum false "Color")⟩,
        ⟨"front", .composite false "Wheel"⟩]⟩]
      shared := [.enum false "Paint"] } := by
    decide +kernel
  obtain ⟨code, hcode⟩ : ∃ code, Marshal.generate enumsWithoutComposite .fromJson {} = .ok code :=
    Outcome.exists_eq_ok (by decide +kernel)
  obtain ⟨s, methods, -, hs, hmethods, -, -, -, -, -, hiff⟩ := params_nodup_iff hcode
  obtain rfl := Except.ok.inj (hread.symm.trans hs)
  exact ⟨code, _, methods, hcode, hs, hmethods, hiff.2 (by decide +kernel)⟩

/-- A composite and an enum of its name. -/
def enumNamedAsComposite : Json :=
  .obj [("Color", .obj []), ("Car", .obj [("paint", .str "enum Color")])]

/-- The class has two methods for `Color`, in both directions. -/
theorem params_not_nodup_of_enumNamedAsComposite :
    ∃ s, ofJson enumNamedAsComposite = .ok s ∧ ∀ direction, ∃ code methods,
      Marshal.generate enumNamedAsComposite direction {} = .ok code ∧
      s.methods direction = .ok methods ∧ ¬ (methods.map Code.Method.params).Nodup := by
  have hread : ofJson enumNamedAsComposite =
      .ok { types :=
        [⟨"Color", false, []⟩, ⟨"Car", false, [⟨"paint", .enum false "Color"⟩]⟩] } := by
    decide +kernel
  refine ⟨_, hread, fun direction => ?_⟩
  have hparams : (methods { types := [⟨"Color", false, []⟩,
        ⟨"Car", false, [⟨"paint", .enum false "Color"⟩]⟩] } direction).map
          (fun methods => methods.map Code.Method.params) =
      .ok (["Color", "Car", "Color", "int"].map (Conversion.params direction)) := by
    cases direction <;> decide +kernel
  obtain ⟨methods, hmethods, heq⟩ := Outcome.map_eq_ok_iff.1 hparams
  refine ⟨(unitOf direction {} methods).render, methods, ?_, hmethods, ?_⟩
  · rw [generate_of_ofJson hread, hmethods]
    rfl
  · rw [heq, List.nodup_map_iff (Conversion.params_injective direction)]
    decide

end Schema

end Marshal
