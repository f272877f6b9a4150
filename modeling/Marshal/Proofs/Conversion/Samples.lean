import Marshal.Proofs.Conversion.Rearrangement
import Marshal.Proofs.Schema.Documents
import Marshal.Schema.Sample

/-!
# Methods of sample documents

A sample document declares any number of types, and each of them needs the same shared types. The
names of the types are told apart by the digits of their numbers and can be read as composites, so
that the document is read as it stands. Main statement: a document of `n` types has `n` methods for
these, in order, and behind them ten shared methods, which do not depend on `n`
(`methods_of_sampleDocument`).
-/

namespace Marshal

namespace Schema

open TypeExpr Conversion

/-! ## Names -/

theorem toList_sampleName (index : Nat) :
    (sampleName index).toList = "Type".toList ++ Nat.toDigits 10 index := by
  rw [sampleName, String.toList_append, Nat.toString_eq_repr, Nat.toList_repr]

theorem sampleName_injective : Function.Injective sampleName := by
  intro i j h
  have hchars := congrArg String.toList h
  rw [toList_sampleName, toList_sampleName] at hchars
  have hdigits := congrArg (Nat.ofDigitChars 10 · 0) (List.append_cancel_left hchars)
  simpa only [Nat.ofDigitChars_ten_toDigits] using hdigits

theorem sampleName_ne_sharedKey (index : Nat) : sampleName index ≠ sharedKey := fun h => by
  have hchars := congrArg String.toList h
  rw [toList_sampleName] at hchars
  simp [sharedKey] at hchars

theorem plain_of_mem_sampleName {index : Nat} {c : Char} (h : c ∈ (sampleName index).toList) :
    Text.isBlank c = false ∧ c ∉ "?]<".toList := by
  rw [toList_sampleName] at h
  rcases List.mem_append.1 h with h | h
  · have hletter : c = 'T' ∨ c = 'y' ∨ c = 'p' ∨ c = 'e' := by simpa using h
    rcases hletter with rfl | rfl | rfl | rfl <;> decide
  · have hdigit := Nat.isDigit_of_mem_toDigits (by decide) (by decide) h
    refine ⟨Text.isBlank_of_isDigit hdigit, fun hmem => ?_⟩
    have hmark : c = '?' ∨ c = ']' ∨ c = '<' := by simpa using hmem
    rcases hmark with rfl | rfl | rfl <;> exact absurd hdigit (by decide)

theorem isCompositeName_sampleName (index : Nat) : IsCompositeName (sampleName index).toList := by
  have hmarks : ∀ c ∈ (sampleName index).toList, c ∉ "?]<".toList := fun c hc =>
    (plain_of_mem_sampleName hc).2
  have hstart : 'T' ∈ (sampleName index).toList := by
    simp [toList_sampleName]
  refine ⟨⟨List.ne_nil_of_mem hstart, ?_, fun h => ?_, fun h => ?_⟩, fun kind h => ?_, ?_, ?_,
    fun h => ?_, fun elem h => ?_⟩
  · exact Text.trim_eq_self_iff.2
      ⟨fun c hc => (plain_of_mem_sampleName (List.mem_of_mem_head? hc)).1,
        fun c hc => (plain_of_mem_sampleName (List.mem_of_mem_getLast? hc)).1⟩
  · exact hmarks '?' (h.subset (by decide)) (by decide)
  · exact hmarks ']' (h.subset (by decide)) (by decide)
  · exact absurd (isLower_of_mem_keyword kind 'T' (h ▸ hstart)) (by decide)
  · simp [toList_sampleName]
  · simp [toList_sampleName]
  · exact hmarks '<' (h.subset (by decide)) (by decide)
  · exact hmarks '<' (h ▸ by simp) (by decide)

/-! ## Reading a sample -/

/-- The common fields of all sample types, as they are read. -/
def sampleBase : List Field :=
  [⟨"id", .scalar false .long⟩, ⟨"name", .scalar false .string⟩, ⟨"score", .scalar true .double⟩,
    ⟨"tags", .list false (.scalar false .string)⟩,
    ⟨"grid", .array false (.array false (.scalar false .int))⟩,
    ⟨"metrics", .dictionary false (.scalar false .string) (.scalar false .decimal)⟩,
    ⟨"color", .enum false "Color"⟩]

/-- The field of the next sample type. -/
def sampleNext (index : Nat) : Field :=
  ⟨"next", .composite false (sampleName (index + 1))⟩

/-- The sample type `index` out of `count`, as it is read. -/
def sampleComposite (count index : Nat) : Composite where
  name := sampleName index
  isRef := decide (index % 2 = 0)
  fields := sampleBase ++ if index + 1 < count then [sampleNext index] else []

theorem declares_sampleBase : List.Forall₂ DeclaresField sampleFields sampleBase := by
  have hread : sampleFields.mapM (readField "") = .ok sampleBase := by
    decide +kernel
  exact (Outcome.mapM_eq_ok_iff.1 hread).imp fun _ _ => readField_eq_ok_iff.1

theorem declares_sampleNext (index : Nat) :
    DeclaresField ("next", .str (sampleName (index + 1))) (sampleNext index) := by
  refine ⟨rfl, _, rfl, parse_eq_ok_iff.2 ?_⟩
  rw [parseChars_name (isCompositeName_sampleName _), String.ofList_toList]
  rfl

/-- The members of the declaration of a sample type. -/
def sampleMembers (count index : Nat) : List (String × Json) :=
  sampleFields
    ++ (if index + 1 < count then [("next", .str (sampleName (index + 1)))] else [])
    ++ (if index % 2 = 0 then [("__is_ref", .bool true)] else [])

theorem sampleType_eq (count index : Nat) :
    sampleType count index = .obj (sampleMembers count index) :=
  rfl

theorem lookup_sampleMembers (count index : Nat) :
    (sampleMembers count index).lookup referenceKey =
      if index % 2 = 0 then some (.bool true) else none := by
  unfold sampleMembers
  split <;> split <;> rfl

/-- The mark of a reference type is the only member that declares no field. -/
theorem fieldMembers_sampleMembers (count index : Nat) :
    fieldMembers (sampleMembers count index) = sampleFields
      ++ if index + 1 < count then [("next", .str (sampleName (index + 1)))] else [] := by
  have hbase : fieldMembers sampleFields = sampleFields := List.filter_eq_self.2 (by decide)
  have hnext : ∀ value : Json, fieldMembers [("next", value)] = [("next", value)] := by
    simp [fieldMembers, isDirective, List.isPrefixOf]
  have hmark : fieldMembers [("__is_ref", .bool true)] = [] := rfl
  have hnil : fieldMembers [] = [] := rfl
  rw [sampleMembers, fieldMembers_append, fieldMembers_append, hbase]
  split <;> split <;> simp only [hnext, hmark, hnil, List.append_nil]

theorem declares_sampleMembers (count index : Nat) :
    List.Forall₂ DeclaresField (fieldMembers (sampleMembers count index))
      (sampleComposite count index).fields := by
  rw [fieldMembers_sampleMembers]
  refine List.rel_append declares_sampleBase ?_
  split
  · exact .cons (declares_sampleNext index) .nil
  · exact .nil

theorem readEntry_sampleType (count index : Nat) :
    readEntry (sampleName index, sampleType count index) =
      .ok (.type (sampleComposite count index)) := by
  have hmark : ValidMark (sampleMembers count index) := by
    rw [ValidMark, lookup_sampleMembers]
    split <;> simp
  have hisRef : ((sampleMembers count index).lookup referenceKey).isSome =
      decide (index % 2 = 0) := by
    rw [lookup_sampleMembers]
    split <;> simp [*]
  have hfields : (fieldMembers (sampleMembers count index)).mapM (readField (sampleName index)) =
      .ok (sampleComposite count index).fields :=
    Outcome.mapM_eq_ok_iff.2
      ((declares_sampleMembers count index).imp fun _ _ => readField_eq_ok_iff.2)
  have hread : readComposite (sampleName index) (sampleMembers count index) =
      .ok (sampleComposite count index) := by
    rw [readComposite_of_valid hmark, hfields, hisRef]
    rfl
  rw [sampleType_eq, readEntry, if_neg (sampleName_ne_sharedKey index)]
  exact Outcome.map_eq_ok_iff.2 ⟨_, hread, rfl⟩

/-- The schema has the types of a sample, and lists none apart from them. -/
structure IsSample (s : Schema) (count : Nat) : Prop where
  types : s.types = (List.range count).map (sampleComposite count)
  shared : s.shared = []

theorem ofJson_sampleDocument (count : Nat) :
    ∃ s, ofJson (sampleDocument count) = .ok s ∧ s.IsSample count := by
  have hentries : ((List.range count).map fun index =>
      (sampleName index, sampleType count index)).mapM readEntry =
        .ok ((List.range count).map fun index => .type (sampleComposite count index)) := by
    rw [Outcome.mapM_eq_ok_iff, List.forall₂_map_left_iff, List.forall₂_map_right_iff,
      List.forall₂_same]
    exact fun index _ => readEntry_sampleType count index
  have hnames : (((List.range count).map (sampleComposite count)).map Composite.name).Nodup := by
    rw [List.map_map]
    exact List.nodup_range.map sampleName_injective
  refine ⟨_, by rw [sampleDocument, ofJson_obj, hentries]; rfl, ⟨?_, ?_⟩⟩
  · have hcomposites : ((List.range count).map fun index =>
        Entry.type (sampleComposite count index)).filterMap Entry.composite? =
          (List.range count).map (sampleComposite count) := by
      rw [List.filterMap_map]
      exact congrFun (List.filterMap_eq_map (f := sampleComposite count)) _
    rw [types_foldl_addEntry, hcomposites, show empty.types = [] from rfl, foldl_insertType hnames,
      List.nil_append]
  · rw [shared_foldl_addEntry, List.flatMap_map]
    exact List.flatMap_eq_nil_iff.2 fun _ _ => rfl

/-! ## The types that a sample needs -/

/-- The shared types of every sample, in the order of their canonical spellings. -/
def sampleShared : List TypeExpr :=
  [.dictionary false (.scalar false .string) (.scalar false .decimal),
    .list false (.scalar false .string), .scalar false .decimal, .scalar false .double,
    .enum false "Color", .scalar false .int, .array false (.scalar false .int),
    .array false (.array false (.scalar false .int)), .scalar false .long, .scalar false .string]

/-- The types that the common fields ask for. -/
def sampleRequested : List TypeExpr :=
  sampleBase.map fun field => field.type.inner

theorem mem_needed_sampleRequested {t : TypeExpr} :
    t ∈ sampleRequested.flatMap needed ↔ t ∈ sampleShared := by
  have hforth : ∀ t ∈ sampleRequested.flatMap needed, t ∈ sampleShared := by decide +kernel
  have hback : ∀ t ∈ sampleShared, t ∈ sampleRequested.flatMap needed := by decide +kernel
  exact ⟨hforth t, hback t⟩

theorem pairwise_sampleShared : sampleShared.Pairwise fun t u => t.canonical < u.canonical := by
  decide +kernel

namespace IsSample

variable {s : Schema} {count : Nat}

/-- A sample asks for the types of the common fields, and for types of its own. -/
theorem mem_requested (h : s.IsSample count) {t : TypeExpr} (ht : t ∈ s.requested) :
    t ∈ sampleRequested ∨ ∃ index, t = .composite false (sampleName index) := by
  simp only [requested, h.types, h.shared, List.nil_append, List.mem_flatMap, List.mem_map] at ht
  obtain ⟨-, ⟨index, -, rfl⟩, field, hfield, rfl⟩ := ht
  rcases List.mem_append.1 hfield with hfield | hfield
  · exact .inl (List.mem_map_of_mem hfield)
  · split at hfield
    · obtain rfl := List.mem_singleton.1 hfield
      exact .inr ⟨index + 1, rfl⟩
    · cases hfield

theorem requested_of_base (h : s.IsSample count) (hpos : 0 < count) {t : TypeExpr}
    (ht : t ∈ sampleRequested) : t ∈ s.requested := by
  obtain ⟨field, hfield, rfl⟩ := List.mem_map.1 ht
  refine List.mem_append_right _ (List.mem_flatMap.2 ⟨sampleComposite count 0, ?_, ?_⟩)
  · rw [h.types]
    exact List.mem_map_of_mem (List.mem_range.2 hpos)
  · exact List.mem_map_of_mem (List.mem_append_left _ hfield)

theorem mem_neededTypes (h : s.IsSample count) (hpos : 0 < count) {t : TypeExpr} :
    t ∈ s.neededTypes ↔ t ∈ sampleShared := by
  rw [← mem_needed_sampleRequested, neededTypes, List.mem_flatMap, List.mem_flatMap]
  constructor
  · rintro ⟨r, hr, ht⟩
    rcases h.mem_requested hr with hr | ⟨index, rfl⟩
    · exact ⟨r, hr, ht⟩
    · cases ht
  · rintro ⟨r, hr, ht⟩
    exact ⟨r, h.requested_of_base hpos hr, ht⟩

theorem convertible (h : s.IsSample count) (hpos : 0 < count) : s.Convertible := by
  refine ⟨fun t ht => ?_, fun t ht hcollides => ?_⟩
  · obtain ⟨r, hr, ht⟩ := List.mem_flatMap.1 ht
    rcases h.mem_requested hr with hr | ⟨index, rfl⟩
    · have hplain : ∀ t ∈ sampleRequested.flatMap chain, t.isNullable = false := by
        decide +kernel
      exact hplain t (List.mem_flatMap.2 ⟨r, hr, ht⟩)
    · obtain rfl := List.mem_singleton.1 ht
      rfl
  · have hfree : ∀ t ∈ sampleShared, ¬ Collides sampleShared t := by decide +kernel
    exact hfree t ((h.mem_neededTypes hpos).1 ht)
      (hcollides.mono fun u hu => (h.mem_neededTypes hpos).1 hu)

/-- The methods of a sample are those of its types, and those of the shared types of samples. -/
theorem methods_eq (h : s.IsSample count) (hpos : 0 < count) (hs : s.WellFormed)
    {direction : Direction} {converted : List Code.Method}
    (hpairs : List.Forall₂ (fun t m => sharedMethod direction t = .ok m) sampleShared converted) :
    s.methods direction = .ok (s.types.map (compositeMethod direction s) ++ converted) := by
  rcases hs.methods_cases direction with
    ⟨-, shared, converted', hsorted, hmem, hpairs', hmethods⟩ | ⟨hrefused, -⟩
  · obtain rfl : shared = sampleShared :=
      eq_of_mem_iff hsorted pairwise_sampleShared fun t => (hmem t).trans (h.mem_neededTypes hpos)
    rw [converted_unique hpairs hpairs', hmethods]
  · exact absurd (h.convertible hpos) hrefused

end IsSample

/-! ## Main statement -/

/-- The type of number `index` in a sample of `count` types: every other type is a reference type,
and all but the last have a field `next` of the next type, which is declared. -/
structure IsSampleType (s : Schema) (count index : Nat) (c : Composite) : Prop where
  name : c.name = "Type" ++ toString index
  isRef : c.isRef = true ↔ index % 2 = 0
  next : (∃ field ∈ c.fields, field.name = "next") ↔ index + 1 < count
  type : ∀ field ∈ c.fields, field.name = "next" →
    field.type = .composite false ("Type" ++ toString (index + 1)) ∧
      "Type" ++ toString (index + 1) ∈ s.names

theorem IsSample.type_sampleComposite {s : Schema} {count : Nat} (h : s.IsSample count)
    (index : Nat) : IsSampleType s count index (sampleComposite count index) := by
  have hbase : ∀ field ∈ sampleBase, field.name ≠ "next" := by decide
  have hnext : ∀ field ∈ (sampleComposite count index).fields, field.name = "next" →
      index + 1 < count ∧ field = sampleNext index := by
    intro field hfield hname
    rcases List.mem_append.1 hfield with hfield | hfield
    · exact absurd hname (hbase field hfield)
    · split at hfield
      · next hlt => exact ⟨hlt, List.mem_singleton.1 hfield⟩
      · cases hfield
  refine ⟨rfl, decide_eq_true_iff, ⟨?_, fun hlt => ?_⟩, fun field hfield hname => ?_⟩
  · rintro ⟨field, hfield, hname⟩
    exact (hnext field hfield hname).1
  · refine ⟨sampleNext index, List.mem_append_right _ ?_, rfl⟩
    rw [if_pos hlt]
    exact List.mem_singleton_self _
  · obtain ⟨hlt, rfl⟩ := hnext field hfield hname
    refine ⟨rfl, ?_⟩
    rw [names, h.types, List.map_map]
    exact List.mem_map.2 ⟨index + 1, List.mem_range.2 hlt, rfl⟩

/-- A sample document of any number of types is read as these types, in order. If there are any, the
methods of either direction are those of the types, in order, and behind them those of ten shared
types, which are the same ten methods for all documents. An empty document has no methods. -/
theorem methods_of_sampleDocument :
    sampleShared.map canonical = ["Dictionary<string, decimal>", "List<string>", "decimal",
      "double", "enum Color", "int", "int[]", "int[][]", "long", "string"] ∧
    ∀ direction : Direction, ∃ converted : List Code.Method,
      converted.length = 10 ∧
      List.Forall₂ (fun t m => sharedMethod direction t = .ok m) sampleShared converted ∧
      (∀ count : Nat, 0 < count → ∃ s, ofJson (sampleDocument count) = .ok s ∧
        List.Forall₂ (IsSampleType s count) (List.range count) s.types ∧
        ∃ methods, s.methods direction = .ok methods ∧ methods.length = count + 10 ∧
          methods = s.types.map (compositeMethod direction s) ++ converted) ∧
      ∃ s, ofJson (sampleDocument 0) = .ok s ∧ s.methods direction = .ok [] := by
  refine ⟨by decide, fun direction => ?_⟩
  have hplain : ∀ t ∈ sampleShared, t.isNullable = false ∧ t.isComposite = false := by decide
  obtain ⟨converted, hconverted⟩ := Outcome.exists_mapM_eq_ok fun t ht =>
    exists_sharedMethod direction (hplain t ht).1 (hplain t ht).2
  have hpairs := Outcome.mapM_eq_ok_iff.1 hconverted
  have hlength : converted.length = 10 := hpairs.length_eq.symm
  refine ⟨converted, hlength, hpairs, fun count hpos => ?_, empty, rfl, rfl⟩
  obtain ⟨s, hs, hsample⟩ := ofJson_sampleDocument count
  have hmethods := hsample.methods_eq hpos (wellFormed_of_ofJson hs) hpairs
  refine ⟨s, hs, ?_, _, hmethods, ?_, rfl⟩
  · rw [hsample.types, List.forall₂_map_right_iff, List.forall₂_same]
    exact fun index _ => hsample.type_sampleComposite index
  · simp [hsample.types, hlength]

/-- Three types have thirteen methods. -/
theorem methods_of_sampleDocument_three :
    ∃ s methods, ofJson (sampleDocument 3) = .ok s ∧ s.methods .fromJson = .ok methods ∧
      methods.length = 13 := by
  obtain ⟨converted, -, -, hsamples, -⟩ := methods_of_sampleDocument.2 .fromJson
  obtain ⟨s, hs, -, methods, hmethods, hlength, -⟩ := hsamples 3 (by decide)
  exact ⟨s, methods, hs, hmethods, hlength⟩

end Schema

end Marshal
