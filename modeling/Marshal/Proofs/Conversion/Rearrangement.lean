import Mathlib.Data.List.Sort
import Marshal.Proofs.Conversion.Success

/-!
# Order and repetition

The order of declarations and the repetition of listed types decide where a method stands, and
nothing else. What is asked for has the same chains in any order, so that the shared set, which is
sorted, is the same list (`eq_of_mem_iff`). A composite looks at the others only for their marks.
Main statement: schemas that ask for the same both fail or both have methods, and then the shared
methods are the same list and each composite has the same method in both
(`generate_of_rearranged`).
-/

namespace Marshal

/-- The same composite, with its fields in any order. -/
structure Composite.SameUpToOrder (c c' : Composite) : Prop where
  name : c.name = c'.name
  isRef : c.isRef = c'.isRef
  fields : c.fields.Perm c'.fields

instance (c c' : Composite) : Decidable (c.SameUpToOrder c') :=
  decidable_of_iff (c.name = c'.name ∧ c.isRef = c'.isRef ∧ c.fields.Perm c'.fields)
    ⟨fun ⟨hname, hisRef, hfields⟩ => ⟨hname, hisRef, hfields⟩,
      fun h => ⟨h.name, h.isRef, h.fields⟩⟩

namespace Schema

open TypeExpr Conversion

/-- All that `s` says is said by `s'`: its composites are declared up to the order of their fields,
and its listed types lie on chains of what is asked for, so that listing them changes nothing. -/
structure CoveredBy (s s' : Schema) : Prop where
  declared : ∀ c ∈ s.types, ∃ c' ∈ s'.types, c.SameUpToOrder c'
  listed : ∀ t ∈ s.shared, t ∈ s'.chained

/-- The schemas say the same in another order and with other repetitions. Names are distinct in a
schema, so the composites correspond one to one. -/
structure Rearranges (s s' : Schema) : Prop where
  forth : s.CoveredBy s'
  back : s'.CoveredBy s

instance (s s' : Schema) : Decidable (s.CoveredBy s') :=
  decidable_of_iff
    ((∀ c ∈ s.types, ∃ c' ∈ s'.types, c.SameUpToOrder c') ∧ ∀ t ∈ s.shared, t ∈ s'.chained)
    ⟨fun ⟨hdeclared, hlisted⟩ => ⟨hdeclared, hlisted⟩, fun h => ⟨h.declared, h.listed⟩⟩

variable {s s' : Schema}

/-! ## Chains of what is asked for -/

theorem mem_chained_of_requested {t : TypeExpr} (h : t ∈ s.requested) : t ∈ s.chained :=
  List.mem_flatMap.2 ⟨t, h, mem_chain_self t⟩

theorem chain_subset_chained {t : TypeExpr} (h : t ∈ s.chained) : t.chain ⊆ s.chained := by
  obtain ⟨r, hr, ht⟩ := List.mem_flatMap.1 h
  intro u hu
  exact List.mem_flatMap.2 ⟨r, hr, chain_subset_of_mem ht hu⟩

theorem CoveredBy.chained_subset (h : s.CoveredBy s') : s.chained ⊆ s'.chained := by
  intro u hu
  obtain ⟨t, ht, hu⟩ := List.mem_flatMap.1 hu
  refine chain_subset_chained ?_ hu
  rcases List.mem_append.1 ht with ht | ht
  · exact h.listed t ht
  · obtain ⟨c, hc, ht⟩ := List.mem_flatMap.1 ht
    obtain ⟨field, hfield, rfl⟩ := List.mem_map.1 ht
    obtain ⟨c', hc', hsame⟩ := h.declared c hc
    have hfield' := hsame.fields.mem_iff.1 hfield
    exact mem_chained_of_requested
      (List.mem_append_right _ (List.mem_flatMap.2 ⟨c', hc', List.mem_map_of_mem hfield'⟩))

theorem CoveredBy.neededTypes_subset (h : s.CoveredBy s') : s.neededTypes ⊆ s'.neededTypes := by
  intro t ht
  rw [mem_neededTypes] at ht ⊢
  exact ⟨h.chained_subset ht.1, ht.2⟩

theorem CoveredBy.convertible (h : s.CoveredBy s') (hs : s'.Convertible) : s.Convertible where
  no_nullable t ht := hs.no_nullable t (h.chained_subset ht)
  no_collision t ht hcollides :=
    hs.no_collision t (h.neededTypes_subset ht) (hcollides.mono h.neededTypes_subset)

/-- A list of types in the order of their canonical spellings is known by its members. -/
theorem eq_of_mem_iff {shared shared' : List TypeExpr}
    (h : shared.Pairwise fun t u => t.canonical < u.canonical)
    (h' : shared'.Pairwise fun t u => t.canonical < u.canonical)
    (hmem : ∀ t, t ∈ shared ↔ t ∈ shared') : shared = shared' := by
  have : Std.Irrefl fun t u : TypeExpr => t.canonical < u.canonical := ⟨fun t => lt_irrefl _⟩
  have : Std.Antisymm fun t u : TypeExpr => t.canonical < u.canonical :=
    ⟨fun t u htu hut => absurd hut htu.not_gt⟩
  exact h.eq_of_mem_iff h' hmem

/-! ## Methods of composites -/

theorem type?_eq_some_iff {name : String} {c : Composite} :
    s.type? name = some c ↔ c ∈ s.types ∧ c.name = name := by
  constructor
  · intro h
    exact ⟨List.mem_of_find?_eq_some h, by simpa using List.find?_some h⟩
  · rintro ⟨hc, rfl⟩
    cases hfind : s.type? c.name with
    | none =>
      have hnone := List.find?_eq_none.1 hfind c hc
      simp at hnone
    | some d =>
      have hname : d.name = c.name := by simpa using List.find?_some hfind
      rw [List.inj_on_of_nodup_map s.distinct (List.mem_of_find?_eq_some hfind) hc hname]

/-- A name is declared with the same mark in both schemas, or in none of them. -/
theorem Rearranges.isRef_type? (h : s.Rearranges s') (name : String) :
    (s.type? name).map Composite.isRef = (s'.type? name).map Composite.isRef := by
  ext b
  have hforth : ∀ {s s' : Schema}, s.CoveredBy s' → (s.type? name).map Composite.isRef = some b →
      (s'.type? name).map Composite.isRef = some b := by
    intro s s' hcovered hb
    obtain ⟨c, hc, rfl⟩ := Option.map_eq_some_iff.1 hb
    obtain ⟨hmem, rfl⟩ := type?_eq_some_iff.1 hc
    obtain ⟨c', hc', hsame⟩ := hcovered.declared c hmem
    exact Option.map_eq_some_iff.2
      ⟨c', type?_eq_some_iff.2 ⟨hc', hsame.name.symm⟩, hsame.isRef.symm⟩
  exact ⟨hforth h.forth, hforth h.back⟩

theorem isValueType_composite (s : Schema) (b : Bool) (name : String) :
    Write.isValueType s (.composite b name) =
      !((s.type? name).map Composite.isRef).getD false := by
  rw [Write.isValueType]
  cases s.type? name <;> rfl

theorem Rearranges.isValueType_eq (h : s.Rearranges s') (t : TypeExpr) :
    Write.isValueType s t = Write.isValueType s' t := by
  cases t with
  | composite b name => rw [isValueType_composite, isValueType_composite, h.isRef_type?]
  | _ => rfl

theorem Rearranges.writeField_eq (h : s.Rearranges s') :
    Write.writeField s = Write.writeField s' := by
  funext field
  simp only [Write.writeField, Write.presentValue, h.isValueType_eq]

/-- The method of a composite is the same in both schemas. -/
theorem Rearranges.compositeMethod_eq (h : s.Rearranges s') (direction : Direction)
    (c : Composite) : compositeMethod direction s c = compositeMethod direction s' c := by
  cases direction with
  | fromJson => rfl
  | toJson =>
    simp only [compositeMethod, Write.compositeMethod, Write.compositeBody, h.writeField_eq]

theorem Rearranges.eq_of_fields (h : s.Rearranges s') {c c' : Composite} (hc : c ∈ s.types)
    (hc' : c' ∈ s'.types) (hname : c.name = c'.name) (hfields : c.fields = c'.fields) : c = c' := by
  obtain ⟨d, hd, hsame⟩ := h.forth.declared c hc
  obtain rfl := List.inj_on_of_nodup_map s'.distinct hd hc' (hsame.name.symm.trans hname)
  cases c
  cases d
  cases hname
  cases hfields
  cases hsame.isRef
  rfl

/-! ## Main statement -/

/-- Both schemas have methods, with one list of shared methods, or none of them has. -/
theorem Rearranges.methods_cases (h : s.Rearranges s') (hs : s.WellFormed) (hs' : s'.WellFormed)
    (direction : Direction) :
    (∃ shared converted,
      List.Forall₂ (fun t m => sharedMethod direction t = .ok m) shared converted ∧
      s.methods direction = .ok (s.types.map (compositeMethod direction s) ++ converted) ∧
      s'.methods direction = .ok (s'.types.map (compositeMethod direction s') ++ converted)) ∨
    ∃ text text', s.methods direction = .error (.unsupported text) ∧
      s'.methods direction = .error (.unsupported text') := by
  rcases hs.methods_cases direction with
    ⟨hok, shared, converted, hsorted, hmem, hpairs, hmethods⟩ | ⟨hno, t, -, hmethods⟩
  · rcases hs'.methods_cases direction with
      ⟨-, shared', converted', hsorted', hmem', hpairs', hmethods'⟩ | ⟨hno', -, -, -⟩
    · have hneeded : ∀ t, t ∈ s.neededTypes ↔ t ∈ s'.neededTypes := fun t =>
        ⟨fun ht => h.forth.neededTypes_subset ht, fun ht => h.back.neededTypes_subset ht⟩
      -- Both sets are sorted, so they are one list, and a type has one method at most.
      obtain rfl : shared = shared' := eq_of_mem_iff hsorted hsorted' fun t => by
        rw [hmem, hmem', hneeded]
      obtain rfl := converted_unique hpairs hpairs'
      exact .inl ⟨shared, converted, hpairs, hmethods, hmethods'⟩
    · exact absurd (h.back.convertible hok) hno'
  · rcases hs'.methods_cases direction with ⟨hok', -⟩ | ⟨-, t', -, hmethods'⟩
    · exact absurd (h.forth.convertible hok') hno
    · exact .inr ⟨t.canonical, t'.canonical, hmethods, hmethods'⟩

/-- Documents that say the same, in another order and with other repetitions, both have code or are
both refused for a type. If they have code, the shared methods are the same list, and a composite
whose fields stand in the same order has the same method in both. -/
theorem generate_of_rearranged {document document' : Json} (hs : ofJson document = .ok s)
    (hs' : ofJson document' = .ok s') (h : s.Rearranges s') (direction : Direction)
    (options options' : Options) :
    ((∃ shared converted methods methods',
        List.Forall₂ (fun t m => sharedMethod direction t = .ok m) shared converted ∧
        methods = s.types.map (compositeMethod direction s) ++ converted ∧
        methods' = s'.types.map (compositeMethod direction s') ++ converted ∧
        s.methods direction = .ok methods ∧ s'.methods direction = .ok methods' ∧
        Marshal.generate document direction options =
          .ok (unitOf direction options methods).render ∧
        Marshal.generate document' direction options' =
          .ok (unitOf direction options' methods').render) ∨
      ∃ text text', Marshal.generate document direction options = .error (.unsupported text) ∧
        Marshal.generate document' direction options' = .error (.unsupported text')) ∧
    ∀ c ∈ s.types, ∀ c' ∈ s'.types, c.name = c'.name → c.fields = c'.fields →
      compositeMethod direction s c = compositeMethod direction s' c' := by
  rw [generate_of_ofJson hs, generate_of_ofJson hs']
  constructor
  · rcases h.methods_cases (wellFormed_of_ofJson hs) (wellFormed_of_ofJson hs') direction with
      ⟨shared, converted, hpairs, hmethods, hmethods'⟩ | ⟨text, text', hmethods, hmethods'⟩
    · rw [hmethods, hmethods']
      exact .inl ⟨shared, converted, _, _, hpairs, rfl, rfl, rfl, rfl, rfl, rfl⟩
    · rw [hmethods, hmethods']
      exact .inr ⟨text, text', rfl, rfl⟩
  · intro c hc c' hc' hname hfields
    rw [h.eq_of_fields hc hc' hname hfields, h.compositeMethod_eq]

/-- A composite that refers to a reference type declared after it, and listed types. -/
def forwardDocument : Json :=
  .obj [("Car", .obj [("front", .str "Wheel?"), ("rows", .str "List<int[]>?")]),
    ("Wheel", .obj [("__is_ref", .bool true), ("width", .str "int"), ("spokes", .str "byte")]),
    ("__slaves", .arr [.str "long", .str "int[]"])]

/-- The same with the types and the fields of one of them in another order. One of the listed types
is repeated, and another, which a field depends on, is left out. -/
def backwardDocument : Json :=
  .obj [("__slaves", .arr [.str "long", .str "long"]),
    ("Wheel", .obj [("spokes", .str "byte"), ("width", .str "int"), ("__is_ref", .bool true)]),
    ("Car", .obj [("front", .str "Wheel?"), ("rows", .str "List<int[]>?")])]

def forwardSchema : Schema where
  types := [
    ⟨"Car", false, [⟨"front", .composite true "Wheel"⟩,
      ⟨"rows", .list true (.array false (.scalar false .int))⟩]⟩,
    ⟨"Wheel", true, [⟨"width", .scalar false .int⟩, ⟨"spokes", .scalar false .byte⟩]⟩]
  shared := [.scalar false .long, .array false (.scalar false .int)]

def backwardSchema : Schema where
  types := [
    ⟨"Wheel", true, [⟨"spokes", .scalar false .byte⟩, ⟨"width", .scalar false .int⟩]⟩,
    ⟨"Car", false, [⟨"front", .composite true "Wheel"⟩,
      ⟨"rows", .list true (.array false (.scalar false .int))⟩]⟩]
  shared := [.scalar false .long, .scalar false .long]

theorem generate_forward_backward :
    ofJson forwardDocument = .ok forwardSchema ∧ ofJson backwardDocument = .ok backwardSchema ∧
    forwardSchema.Rearranges backwardSchema ∧
    (∃ converted,
      forwardSchema.methods .toJson =
        .ok (forwardSchema.types.map (compositeMethod .toJson forwardSchema) ++ converted) ∧
      backwardSchema.methods .toJson =
        .ok (backwardSchema.types.map (compositeMethod .toJson backwardSchema) ++ converted)) ∧
    ∀ c ∈ forwardSchema.types, c.name = "Car" →
      compositeMethod .toJson forwardSchema c = compositeMethod .toJson backwardSchema c := by
  have hs : ofJson forwardDocument = .ok forwardSchema := by decide +kernel
  have hs' : ofJson backwardDocument = .ok backwardSchema := by decide +kernel
  have h : forwardSchema.Rearranges backwardSchema := ⟨by decide +kernel, by decide +kernel⟩
  obtain ⟨hcases, hsame⟩ := generate_of_rearranged hs hs' h .toJson {} {}
  have hok : (Marshal.generate forwardDocument .toJson {}).isOk = true := by decide +kernel
  refine ⟨hs, hs', h, ?_, fun c hc hname => ?_⟩
  · obtain ⟨_, converted, _, _, -, rfl, rfl, hmethods, hmethods', -⟩ | ⟨text, -, herr, -⟩ := hcases
    · exact ⟨converted, hmethods, hmethods'⟩
    · rw [herr] at hok
      cases hok
  · have hcar : c ∈ backwardSchema.types := by
      revert hc
      simp only [forwardSchema, backwardSchema, List.mem_cons, List.not_mem_nil, or_false]
      rintro (rfl | rfl)
      · exact .inr rfl
      · exact absurd hname (by decide)
    exact hsame c hc c hcar rfl rfl

end Schema

end Marshal
