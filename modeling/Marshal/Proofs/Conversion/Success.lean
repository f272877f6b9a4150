import Marshal.Generate
import Marshal.Proofs.Schema.Reading
import Marshal.Proofs.SharedSet.Closure

/-!
# When a schema can be converted

Whether there are methods for a schema is decided by its types alone, and not by the order in which
they are collected. Main statement: there are methods exactly if no type on a chain is nullable and
no two shared types have the same C# spelling (`methods_ok_iff_convertible`).
-/

namespace Marshal

namespace Conversion

theorem exists_sharedMethod (direction : Direction) {t : TypeExpr} (hp : t.isNullable = false)
    (hs : t.isComposite = false) : ∃ m, sharedMethod direction t = .ok m := by
  unfold sharedMethod
  rw [if_neg (by simp [hp])]
  cases t with
  | composite b name => cases hs
  | _ => cases direction <;> exact ⟨_, rfl⟩

theorem sharedMethod_eq_ok {direction : Direction} {t : TypeExpr} {m : Code.Method}
    (h : sharedMethod direction t = .ok m) :
    ∃ body, sharedBody? direction t = some body ∧ m = method direction t.csharp body := by
  unfold sharedMethod at h
  split at h
  · cases h
  · split at h
    · next body hbody => exact ⟨body, hbody, (Except.ok.inj h).symm⟩
    · cases h

theorem converted_unique {direction : Direction} {shared : List TypeExpr}
    {converted converted' : List Code.Method}
    (h : List.Forall₂ (fun t m => sharedMethod direction t = .ok m) shared converted)
    (h' : List.Forall₂ (fun t m => sharedMethod direction t = .ok m) shared converted') :
    converted = converted' := by
  have hunique : Relator.RightUnique fun t m => sharedMethod direction t = .ok m :=
    fun t m m' hm hm' => Except.ok.inj (hm.symm.trans hm')
  exact List.right_unique_forall₂' hunique h h'

end Conversion

namespace Schema

open TypeExpr

/-- All types on the chains of what is asked for. -/
def chained (s : Schema) : List TypeExpr :=
  s.requested.flatMap chain

/-- The types that are to have a shared conversion. -/
def neededTypes (s : Schema) : List TypeExpr :=
  s.requested.flatMap needed

theorem mem_neededTypes {s : Schema} {t : TypeExpr} :
    t ∈ s.neededTypes ↔ t ∈ s.chained ∧ t.isComposite = false := by
  simp only [neededTypes, chained, List.mem_flatMap, mem_needed]
  exact ⟨fun ⟨r, hr, ht, hs⟩ => ⟨⟨r, hr, ht⟩, hs⟩, fun ⟨⟨r, hr, ht⟩, hs⟩ => ⟨r, hr, ht, hs⟩⟩

/-- No type on a chain is nullable, and the C# spellings tell the shared types apart. -/
structure Convertible (s : Schema) : Prop where
  no_nullable : ∀ t ∈ s.chained, t.isNullable = false
  no_collision : ∀ t ∈ s.neededTypes, ¬ Collides s.neededTypes t

theorem convertible_iff {s : Schema} :
    s.Convertible ↔ (∀ t ∈ s.chained, t.isNullable = false) ∧
      ∀ t ∈ s.neededTypes, ¬ Collides s.neededTypes t :=
  ⟨fun h => ⟨h.no_nullable, h.no_collision⟩, fun ⟨hn, hc⟩ => ⟨hn, hc⟩⟩

instance (s : Schema) : Decidable s.Convertible :=
  decidable_of_iff _ convertible_iff.symm

/-! ## The shared set of a schema -/

theorem WellFormed.requested {s : Schema} (h : s.WellFormed) : ∀ t ∈ s.requested, t.WellFormed := by
  intro t ht
  rcases List.mem_append.1 ht with ht | ht
  · exact (h.shared t ht).1
  · obtain ⟨c, hc, ht⟩ := List.mem_flatMap.1 ht
    obtain ⟨field, hfield, rfl⟩ := List.mem_map.1 ht
    exact (wellFormed_withNullable false field.type).2 (h.fields c hc field hfield)

theorem WellFormed.sharedSet_ok {s : Schema} (h : s.WellFormed) {set : SharedSet}
    (hset : s.sharedSet = .ok set) :
    set.Closed ∧ (∀ t, t ∈ set.types ↔ t ∈ s.neededTypes) ∧ s.Convertible := by
  obtain ⟨hclosed, hcomplete, htypes⟩ := SharedSet.closed_empty.insertAll_ok h.requested hset
  replace htypes : ∀ t, t ∈ set.types ↔ t ∈ s.neededTypes := fun t => by
    simpa [SharedSet.empty, SharedSet.types, neededTypes] using htypes t
  refine ⟨hclosed, htypes, fun t ht => ?_, ?_⟩
  · obtain ⟨r, hr, ht⟩ := List.mem_flatMap.1 ht
    exact (hcomplete r hr t ht).1
  · rintro t ht ⟨u, hu, hne, heq⟩
    exact hne (congrArg canonical
      (hclosed.csharp_injOn ((htypes u).2 hu) ((htypes t).2 ht) heq))

/-- Why a type is refused: it is nullable, or it collides with another shared type. -/
def Refused (s : Schema) (t : TypeExpr) : Prop :=
  t ∈ s.chained ∧ t.isNullable = true ∨ t ∈ s.neededTypes ∧ Collides s.neededTypes t

theorem Refused.not_convertible {s : Schema} {t : TypeExpr} (h : s.Refused t) :
    ¬ s.Convertible := by
  intro hs
  rcases h with ⟨ht, hn⟩ | ⟨ht, hc⟩
  · rw [hs.no_nullable t ht] at hn
    cases hn
  · exact hs.no_collision t ht hc

theorem WellFormed.sharedSet_error {s : Schema} (h : s.WellFormed) {e : SchemaError}
    (herr : s.sharedSet = .error e) : ∃ t, e = .unsupported t.canonical ∧ s.Refused t := by
  obtain ⟨t, ht, heq, hwhy⟩ := SharedSet.closed_empty.insertAll_error h.requested herr
  refine ⟨t, heq, hwhy.imp (fun hn => ⟨ht, hn⟩) fun ⟨hs, hc⟩ => ⟨mem_neededTypes.2 ⟨ht, hs⟩, ?_⟩⟩
  exact hc.mono (by simp [SharedSet.empty, SharedSet.types, neededTypes])

/-! ## Methods -/

theorem methods_of_sharedSet_ok {s : Schema} {set : SharedSet} (hset : s.sharedSet = .ok set)
    (hvalid : set.Valid) (direction : Direction) :
    ∃ converted,
      List.Forall₂ (fun t m => Conversion.sharedMethod direction t = .ok m) set.types converted ∧
      s.methods direction =
        .ok (s.types.map (Conversion.compositeMethod direction s) ++ converted) := by
  obtain ⟨converted, hconverted⟩ := Outcome.exists_mapM_eq_ok fun t ht =>
    Conversion.exists_sharedMethod direction (hvalid.plain ht).1 (hvalid.plain ht).2
  refine ⟨converted, Outcome.mapM_eq_ok_iff.1 hconverted, ?_⟩
  simp only [methods, hset, hconverted, bind, Except.bind, pure, Except.pure]

theorem methods_of_sharedSet_error {s : Schema} {e : SchemaError} (herr : s.sharedSet = .error e)
    (direction : Direction) : s.methods direction = .error e := by
  simp only [methods, herr, bind, Except.bind]

/-- What the methods of a schema are, if there are any, and what is wrong with it otherwise. -/
theorem WellFormed.methods_cases {s : Schema} (h : s.WellFormed) (direction : Direction) :
    (s.Convertible ∧ ∃ shared converted,
      shared.Pairwise (fun t u => t.canonical < u.canonical) ∧
      (∀ t, t ∈ shared ↔ t ∈ s.neededTypes) ∧
      List.Forall₂ (fun t m => Conversion.sharedMethod direction t = .ok m) shared converted ∧
      s.methods direction =
        .ok (s.types.map (Conversion.compositeMethod direction s) ++ converted)) ∨
    (¬ s.Convertible ∧
      ∃ t, s.Refused t ∧ s.methods direction = .error (.unsupported t.canonical)) := by
  cases hset : s.sharedSet with
  | ok set =>
    obtain ⟨hclosed, htypes, hconvertible⟩ := h.sharedSet_ok hset
    obtain ⟨converted, hconverted, hmethods⟩ :=
      methods_of_sharedSet_ok hset hclosed.toValid direction
    exact .inl ⟨hconvertible, set.types, converted, hclosed.pairwise_types, htypes, hconverted,
      hmethods⟩
  | error e =>
    obtain ⟨t, rfl, hrefused⟩ := h.sharedSet_error hset
    exact .inr ⟨hrefused.not_convertible, t, hrefused, methods_of_sharedSet_error hset direction⟩

/-! ## Main statement -/

theorem generate_eq_map (s : Schema) (direction : Direction) (options : Options) :
    s.generate direction options =
      (s.methods direction).map fun methods => (unitOf direction options methods).render := by
  rw [Schema.generate]
  cases s.methods direction <;> rfl

theorem generate_of_ofJson {document : Json} {s : Schema} (h : ofJson document = .ok s)
    (direction : Direction) (options : Options) :
    Marshal.generate document direction options =
      (s.methods direction).map fun methods => (unitOf direction options methods).render := by
  rw [Marshal.generate, h]
  exact generate_eq_map s direction options

/-- A schema document has methods, and hence code, exactly if its schema is convertible. The methods
are then those of the composites, as declared, and one for each shared type, in the order of the
canonical spellings. Otherwise the error names a type that is refused. -/
theorem methods_ok_iff_convertible {document : Json} {s : Schema} (h : ofJson document = .ok s)
    (direction : Direction) (options : Options) :
    ((∃ methods, s.methods direction = .ok methods) ↔ s.Convertible) ∧
    ((∃ code, Marshal.generate document direction options = .ok code) ↔ s.Convertible) ∧
    (∀ methods, s.methods direction = .ok methods → ∃ shared converted,
      shared.Pairwise (fun t u => t.canonical < u.canonical) ∧
      (∀ t, t ∈ shared ↔ t ∈ s.neededTypes) ∧
      List.Forall₂ (fun t m => Conversion.sharedMethod direction t = .ok m) shared converted ∧
      methods = s.types.map (Conversion.compositeMethod direction s) ++ converted) ∧
    ∀ e, (s.methods direction = .error e ∨ Marshal.generate document direction options = .error e) →
      ∃ t, e = .unsupported t.canonical ∧ s.Refused t := by
  rw [generate_of_ofJson h]
  rcases (wellFormed_of_ofJson h).methods_cases direction with
    ⟨hconvertible, shared, converted, hsorted, hmem, hpairs, hmethods⟩ |
    ⟨hrefused, t, ht, hmethods⟩
  · rw [hmethods]
    refine ⟨⟨fun _ => hconvertible, fun _ => ⟨_, rfl⟩⟩, ⟨fun _ => hconvertible, fun _ => ⟨_, rfl⟩⟩,
      fun methods heq => ?_, fun e he => ?_⟩
    · exact ⟨shared, converted, hsorted, hmem, hpairs, (Except.ok.inj heq).symm⟩
    · rcases he with he | he <;> cases he
  · rw [hmethods]
    refine ⟨⟨fun ⟨_, hok⟩ => ?_, fun hok => absurd hok hrefused⟩,
      ⟨fun ⟨_, hok⟩ => ?_, fun hok => absurd hok hrefused⟩, fun methods heq => ?_, fun e he => ?_⟩
    · cases hok
    · cases hok
    · cases heq
    · rcases he with he | he <;> exact ⟨t, (Except.error.inj he).symm, ht⟩

/-- A listed type, an enum inside a nullable list, and a dictionary whose key is not converted. -/
theorem methods_ok_of_nested_fields :
    ∃ s, ofJson (.obj [("__slaves", .arr [.str "long"]), ("Car", .obj [("__is_ref", .bool true),
        ("colors", .str "List<enum Color>?"), ("rows", .str "Dictionary<Car?,Car[]>")])]) = .ok s ∧
      s.Convertible ∧ ∃ methods, s.methods .toJson = .ok methods := by
  have hread : ofJson (.obj [("__slaves", .arr [.str "long"]), ("Car", .obj [
      ("__is_ref", .bool true), ("colors", .str "List<enum Color>?"),
      ("rows", .str "Dictionary<Car?,Car[]>")])]) = .ok {
        types := [⟨"Car", true, [⟨"colors", .list true (.enum false "Color")⟩,
          ⟨"rows", .dictionary false (.composite true "Car")
            (.array false (.composite false "Car"))⟩]⟩]
        shared := [.scalar false .long] } := by
    decide +kernel
  have hconvertible : Convertible {
      types := [⟨"Car", true, [⟨"colors", .list true (.enum false "Color")⟩,
        ⟨"rows", .dictionary false (.composite true "Car")
          (.array false (.composite false "Car"))⟩]⟩]
      shared := [.scalar false .long] } := by
    decide +kernel
  exact ⟨_, hread, hconvertible, (methods_ok_iff_convertible hread .toJson {}).1.2 hconvertible⟩

end Schema

end Marshal
