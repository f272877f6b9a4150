import Marshal.Generate
import Marshal.Proofs.Code.Tree
import Marshal.Proofs.Conversion.Success
import Marshal.Proofs.SharedSet.Insertion

/-!
# What the methods of a schema spell

All texts in generated code are put together from names of the schema and from fixed texts. The
fixed texts have no character that layout gives a meaning, so methods are free of such characters if
the names are (`Schema.plain_methods`). The bodies are gone through one by one.
-/

namespace Marshal

open Text

/-! ## Spellings -/

namespace TypeExpr

/-- The names of the enums and composites in a type, those in keys of dictionaries included. -/
def names : TypeExpr → List String
  | scalar _ _ => []
  | enum _ name => [name]
  | composite _ name => [name]
  | array _ elem => names elem
  | list _ elem => names elem
  | dictionary _ key value => names key ++ names value

@[simp] theorem names_withNullable (b : Bool) (t : TypeExpr) :
    (t.withNullable b).names = t.names := by
  cases t <;> rfl

theorem names_subset_of_mem_chain {t u : TypeExpr} (h : u ∈ t.chain) : u.names ⊆ t.names := by
  induction t with
  | scalar | composite =>
    obtain rfl := List.mem_singleton.1 h
    exact List.Subset.refl _
  | enum b name =>
    rcases List.mem_cons.1 h with rfl | h
    · exact List.Subset.refl _
    · obtain rfl := List.mem_singleton.1 h
      exact List.nil_subset _
  | array b elem ih | list b elem ih =>
    rcases List.mem_cons.1 h with rfl | h
    · exact List.Subset.refl _
    · exact ih h
  | dictionary b key value _ ih =>
    rcases List.mem_cons.1 h with rfl | h
    · exact List.Subset.refl _
    · exact fun name hname => List.mem_append_right _ (ih h hname)

variable {bad : List Char} (hbad : bad ⊆ layoutChars)
include hbad

theorem free_mark {spelling : String} (h : Free bad spelling) (b : Bool) :
    Free bad (mark b spelling) := by
  cases b <;> simp (disch := decide) [mark, h, free_of_layout hbad]

theorem free_csharp {t : TypeExpr} (h : ∀ name ∈ t.names, Free bad name) : Free bad t.csharp := by
  induction t with
  | scalar b kind =>
    have hkeyword : Free layoutChars kind.keyword := by cases kind <;> decide
    exact free_mark hbad (free_of_layout hbad hkeyword) b
  | enum b name | composite b name => exact free_mark hbad (h name (List.mem_singleton_self name)) b
  | array b elem ih | list b elem ih =>
    have helem : Free bad (spell id elem) := ih h
    exact free_mark hbad (by simp (disch := decide) [helem, free_of_layout hbad]) b
  | dictionary b key value ihkey ihvalue =>
    obtain ⟨hkey, hvalue⟩ := List.forall_mem_append.1 h
    replace hkey : Free bad (spell id key) := ihkey hkey
    replace hvalue : Free bad (spell id value) := ihvalue hvalue
    exact free_mark hbad (by simp (disch := decide) [hkey, hvalue, free_of_layout hbad]) b

end TypeExpr

namespace Conversion

open Code TypeExpr

variable {bad : List Char} (hbad : bad ⊆ layoutChars)
include hbad

/-! ## Array allocations -/

omit hbad in
theorem stripRanks_subset (chars : List Char) : (stripRanks chars).1 ⊆ chars := by
  fun_induction stripRanks chars with
  | case1 rest base ranks h ih =>
    exact fun c hc => List.mem_cons_of_mem _ (List.mem_cons_of_mem _ (ih (h ▸ hc)))
  | case2 base => exact List.Subset.refl _

theorem free_rankText (ranks : Nat) : Free bad (rankText ranks) := by
  refine free_of_layout hbad fun c hc => ?_
  rw [rankText, String.toList_ofList, List.mem_flatten] at hc
  obtain ⟨pair, hpair, hc⟩ := hc
  rw [List.eq_of_mem_replicate hpair] at hc
  have hpair : Free layoutChars "[]" := by decide
  exact hpair c hc

theorem free_arrayAllocation {elem count : String} (helem : Free bad elem)
    (hcount : Free bad count) : Free bad (arrayAllocation elem count) := by
  have hbase : Free bad (String.ofList (stripRanks elem.toList.reverse).1.reverse) := by
    intro c hc
    rw [String.toList_ofList, List.mem_reverse] at hc
    exact helem c (List.mem_reverse.1 (stripRanks_subset _ hc))
  simp (disch := decide) [arrayAllocation, hbase, hcount, free_rankText hbad, free_of_layout hbad]

/-! ## Bodies that read -/

theorem free_keyword (kind : Scalar) : Free bad kind.keyword := by
  apply free_of_layout hbad
  cases kind <;> decide

theorem free_jsonObject : Free bad jsonObject :=
  free_of_layout hbad (by decide)

theorem plain_scalar_read (kind : Scalar) : Every (Stmt.IsPlain bad) (Read.scalarBody kind) := by
  unfold Read.scalarBody
  split <;> simp (disch := decide) [Read.numberBody, Read.whenPresent, Read.peel, free_keyword hbad,
    free_of_layout hbad]

theorem plain_enum_read {name : String} (h : Free bad name) :
    Every (Stmt.IsPlain bad) (Read.enumBody name) := by
  simp (disch := decide) [Read.enumBody, Read.call, Read.methodName, Read.defaultValue,
    Read.whenPresent, h, free_keyword hbad, free_of_layout hbad]

theorem plain_sequence_read {elem allocation : String} {store : Stmt} (helem : Free bad elem)
    (hallocation : Free bad allocation) (hstore : Every (Stmt.IsPlain bad) [store]) :
    Every (Stmt.IsPlain bad) (Read.sequenceBody elem allocation store) := by
  simpa (disch := decide) [Read.sequenceBody, Read.call, Read.methodName, Read.defaultValue,
    Read.whenPresent, Read.peel, jsonArray, helem, hallocation, free_of_layout hbad] using hstore

theorem plain_dictionary_read {dictionary value : String} (hdictionary : Free bad dictionary)
    (hvalue : Free bad value) :
    Every (Stmt.IsPlain bad) (Read.dictionaryBody dictionary value) := by
  simp (disch := decide) [Read.dictionaryBody, Read.call, Read.methodName, Read.defaultValue,
    Read.whenPresent, Read.peel, free_jsonObject hbad, hdictionary, hvalue, free_of_layout hbad]

theorem plain_readField {field : Field} (hname : Free bad field.name)
    (htype : Free bad field.type.inner.csharp) :
    Every (Stmt.IsPlain bad) [Read.readField field] := by
  unfold Read.readField
  split <;> simp (disch := decide) [Read.nullableField, Read.plainField, Read.call, Read.methodName,
    Read.defaultValue, rootMember, valueField, hname, htype, free_of_layout hbad]

theorem plain_composite_read {c : Composite} (hname : Free bad c.name)
    (hfields : ∀ field ∈ c.fields, Free bad field.name ∧ Free bad field.type.inner.csharp) :
    Every (Stmt.IsPlain bad) (Read.compositeBody c) := by
  have hstart : Every (Stmt.IsPlain bad) (if c.isRef then Read.allocateIfNull c.name else []) := by
    split <;> simp (disch := decide) [Read.allocateIfNull, hname, free_of_layout hbad]
  have hread : ∀ field ∈ c.fields, Every (Stmt.IsPlain bad) [Read.readField field] :=
    fun field hfield => plain_readField hbad (hfields field hfield).1 (hfields field hfield).2
  rw [Read.compositeBody, every_append, every_append]
  refine ⟨⟨hstart, ?_⟩, ?_⟩
  · simp (disch := decide) [Read.peel, free_jsonObject hbad, free_of_layout hbad]
  · simpa using hread

/-! ## Bodies that write -/

theorem plain_nullGuard : Every (Stmt.IsPlain bad) Write.nullGuard := by
  simp (disch := decide) [Write.nullGuard, Write.make, jsonType, free_of_layout hbad]

theorem plain_scalar_write (kind : Scalar) : Every (Stmt.IsPlain bad) (Write.scalarBody kind) := by
  have hnumber : Free bad (Write.numberText kind) := by
    apply free_of_layout hbad
    unfold Write.numberText
    split <;> decide
  unfold Write.scalarBody
  split
  · simp (disch := decide) [Write.numberBody, jsonType, hnumber, free_keyword hbad,
      free_of_layout hbad]
  · simp (disch := decide) [Write.make, jsonType, free_of_layout hbad]

theorem plain_enum_write : Every (Stmt.IsPlain bad) Write.enumBody := by
  simp (disch := decide) [Write.enumBody, Write.call, Write.methodName, free_keyword hbad,
    free_of_layout hbad]

theorem plain_sequence_write {length : String} (h : Free bad length) :
    Every (Stmt.IsPlain bad) (Write.sequenceBody length) := by
  rw [Write.sequenceBody, every_append]
  refine ⟨plain_nullGuard hbad, ?_⟩
  simp (disch := decide) [Write.call, Write.methodName, Write.make, jsonType, jsonArray, h,
    free_of_layout hbad]

theorem plain_dictionary_write : Every (Stmt.IsPlain bad) Write.dictionaryBody := by
  rw [Write.dictionaryBody, every_append]
  refine ⟨plain_nullGuard hbad, ?_⟩
  simp (disch := decide) [Write.call, Write.methodName, Write.make, jsonType, free_jsonObject hbad,
    free_of_layout hbad]

theorem plain_writeField (s : Schema) {field : Field} (hname : Free bad field.name) :
    Every (Stmt.IsPlain bad) [Write.writeField s field] := by
  have hvalue : Free bad (Write.presentValue s field) := by
    unfold Write.presentValue
    split <;> simp (disch := decide) [valueField, hname, free_of_layout hbad]
  unfold Write.writeField
  split <;> simp (disch := decide) [rootMember, valueField, Write.call, Write.methodName, hname,
    hvalue, free_of_layout hbad]

theorem plain_composite_write (s : Schema) {c : Composite}
    (hfields : ∀ field ∈ c.fields, Free bad field.name) :
    Every (Stmt.IsPlain bad) (Write.compositeBody s c) := by
  have hstart : Every (Stmt.IsPlain bad) (if c.isRef then Write.nullGuard else []) := by
    split
    · exact plain_nullGuard hbad
    · exact every_nil
  have hwrite : ∀ field ∈ c.fields, Every (Stmt.IsPlain bad) [Write.writeField s field] :=
    fun field hfield => plain_writeField hbad s (hfields field hfield)
  rw [Write.compositeBody, List.map_eq_flatMap]
  simp only [every_append, every_flatMap]
  refine ⟨⟨⟨hstart, ?_⟩, hwrite⟩, ?_⟩
  · simp (disch := decide) [free_jsonObject hbad, free_of_layout hbad]
  · simp (disch := decide) [Write.make, jsonType, free_of_layout hbad]

/-! ## Methods -/

theorem plain_sharedBody {direction : Direction} {t : TypeExpr} {body : List Stmt}
    (h : sharedBody? direction t = some body) (ht : ∀ name ∈ t.names, Free bad name) :
    Every (Stmt.IsPlain bad) body := by
  have hcsharp := free_csharp hbad ht
  cases direction with
  | fromJson =>
    cases t with
    | scalar b kind =>
      obtain rfl := Option.some.inj h
      exact plain_scalar_read hbad kind
    | enum b name =>
      obtain rfl := Option.some.inj h
      exact plain_enum_read hbad (ht name (List.mem_singleton_self name))
    | array b elem =>
      obtain rfl := Option.some.inj h
      have helem : Free bad elem.csharp := free_csharp hbad ht
      have hcount : Free bad "list.Count" := free_of_layout hbad (by decide)
      refine plain_sequence_read hbad helem (free_arrayAllocation hbad helem hcount) ?_
      simp (disch := decide) [free_of_layout hbad]
    | list b elem =>
      obtain rfl := Option.some.inj h
      have helem : Free bad elem.csharp := free_csharp hbad ht
      refine plain_sequence_read hbad helem ?_ ?_ <;>
        simp (disch := decide) [helem, free_of_layout hbad]
    | dictionary b key value =>
      obtain rfl := Option.some.inj h
      exact plain_dictionary_read hbad hcsharp (free_csharp hbad (List.forall_mem_append.1 ht).2)
    | composite => cases h
  | toJson =>
    cases t with
    | scalar b kind =>
      obtain rfl := Option.some.inj h
      exact plain_scalar_write hbad kind
    | enum b name =>
      obtain rfl := Option.some.inj h
      exact plain_enum_write hbad
    | array b elem | list b elem =>
      obtain rfl := Option.some.inj h
      exact plain_sequence_write hbad (free_of_layout hbad (by decide))
    | dictionary b key value =>
      obtain rfl := Option.some.inj h
      exact plain_dictionary_write hbad
    | composite => cases h

theorem plain_method (direction : Direction) {csharp : String} {body : List Stmt}
    (hcsharp : Free bad csharp) (hbody : Every (Stmt.IsPlain bad) body) :
    (method direction csharp body).IsPlain bad := by
  rw [Method.isPlain_iff]
  cases direction with
  | fromJson =>
    simp (disch := decide) [method, Read.method, Read.methodName, modifiers, jsonType, hcsharp,
      hbody, free_of_layout hbad]
  | toJson =>
    simp (disch := decide) [method, Write.method, Write.methodName, modifiers, jsonType, hcsharp,
      hbody, free_of_layout hbad]

theorem plain_compositeMethod (direction : Direction) (s : Schema) {c : Composite}
    (hname : Free bad c.name)
    (hfields : ∀ field ∈ c.fields, Free bad field.name ∧ Free bad field.type.inner.csharp) :
    (compositeMethod direction s c).IsPlain bad := by
  cases direction with
  | fromJson =>
    have hbody := plain_composite_read hbad hname hfields
    exact plain_method hbad .fromJson hname hbody
  | toJson =>
    have hbody := plain_composite_write hbad s fun field hfield => (hfields field hfield).1
    exact plain_method hbad .toJson hname hbody

theorem plain_sharedMethod {direction : Direction} {t : TypeExpr} {m : Method}
    (h : sharedMethod direction t = .ok m) (ht : ∀ name ∈ t.names, Free bad name) :
    m.IsPlain bad := by
  obtain ⟨body, hbody, rfl⟩ := sharedMethod_eq_ok h
  exact plain_method hbad direction (free_csharp hbad ht) (plain_sharedBody hbad hbody ht)

end Conversion

/-! ## Schemas and options -/

/-- The names that a schema gives to types and fields, and those in its types. -/
def Schema.texts (s : Schema) : List String :=
  s.types.flatMap (fun c => c.name :: c.fields.flatMap fun field => field.name :: field.type.names)
    ++ s.shared.flatMap TypeExpr.names

namespace Schema

open TypeExpr

theorem forall_texts_iff {s : Schema} {p : String → Prop} :
    (∀ text ∈ s.texts, p text) ↔
      (∀ c ∈ s.types, p c.name ∧
        ∀ field ∈ c.fields, p field.name ∧ ∀ name ∈ field.type.names, p name) ∧
      ∀ t ∈ s.shared, ∀ name ∈ t.names, p name := by
  simp only [texts, List.forall_mem_append, List.forall_mem_flatMap, List.forall_mem_cons]

variable {bad : List Char} {s : Schema}

theorem free_names_of_requested (h : ∀ text ∈ s.texts, Free bad text) {t : TypeExpr}
    (ht : t ∈ s.requested) : ∀ name ∈ t.names, Free bad name := by
  obtain ⟨htypes, hshared⟩ := forall_texts_iff.1 h
  rcases List.mem_append.1 ht with ht | ht
  · exact hshared t ht
  · obtain ⟨c, hc, ht⟩ := List.mem_flatMap.1 ht
    obtain ⟨field, hfield, rfl⟩ := List.mem_map.1 ht
    rw [TypeExpr.inner, names_withNullable]
    exact ((htypes c hc).2 field hfield).2

/-- If the names of a schema are free of layout characters, so are its methods. -/
theorem plain_methods (hbad : bad ⊆ layoutChars) (h : ∀ text ∈ s.texts, Free bad text)
    {direction : Direction} {methods : List Code.Method}
    (hmethods : s.methods direction = .ok methods) : ∀ m ∈ methods, m.IsPlain bad := by
  cases hset : s.sharedSet with
  | error e => simp [methods_of_sharedSet_error hset] at hmethods
  | ok set =>
    obtain ⟨hvalid, hchains⟩ := SharedSet.valid_empty.insertAll hset
    obtain ⟨converted, hpairs, hok⟩ := methods_of_sharedSet_ok hset hvalid direction
    obtain rfl := Except.ok.inj (hmethods.symm.trans hok)
    refine List.forall_mem_append.2 ⟨List.forall_mem_map.2 fun c hc => ?_, ?_⟩
    · obtain ⟨hname, hfields⟩ := (forall_texts_iff.1 h).1 c hc
      refine Conversion.plain_compositeMethod hbad direction s hname fun field hfield => ?_
      obtain ⟨hfieldName, hnames⟩ := hfields field hfield
      refine ⟨hfieldName, free_csharp hbad ?_⟩
      rwa [TypeExpr.inner, names_withNullable]
    · refine Outcome.forall_of_forall₂ hpairs fun t ht m hm => ?_
      refine Conversion.plain_sharedMethod hbad hm fun name hname => ?_
      have hchain := (hchains t ht).resolve_right (by simp [SharedSet.empty, SharedSet.types])
      obtain ⟨r, hr, hchain⟩ := List.mem_flatMap.1 hchain
      exact free_names_of_requested h hr name (names_subset_of_mem_chain hchain hname)

end Schema

/-- The texts that the options name. -/
def Options.texts (options : Options) : List String :=
  options.namespaceName :: (options.usings ++ options.className.toList)

theorem plain_unitOf {bad : List Char} (hbad : bad ⊆ layoutChars) {s : Schema}
    {direction : Direction} {options : Options} {methods : List Code.Method}
    (hschema : ∀ text ∈ s.texts, Free bad text)
    (hoptions : ∀ text ∈ options.texts, Free bad text)
    (hmethods : s.methods direction = .ok methods) :
    (unitOf direction options methods).IsPlain bad := by
  simp only [Options.texts, List.forall_mem_cons, List.forall_mem_append] at hoptions
  obtain ⟨hspace, husings, hclass⟩ := hoptions
  have hname : Free bad (options.classNameFor direction) := by
    unfold Options.classNameFor
    cases hgiven : options.className with
    | none =>
      apply free_of_layout hbad
      cases direction <;> decide
    | some name => exact hclass name (by simp [hgiven])
  have hbase : ∀ name ∈ Options.baseUsings, Free layoutChars name := by decide
  have hplain := Schema.plain_methods hbad hschema hmethods
  refine ⟨?_, fun m hm => (hplain m hm).branched⟩
  simp only [unitOf, Code.CompilationUnit.texts, Options.allUsings, List.forall_mem_append,
    List.forall_mem_cons, List.forall_mem_flatMap]
  exact ⟨⟨fun name hmem => free_of_layout hbad (hbase name hmem), husings⟩, hspace,
    free_of_layout hbad (by decide), hname, fun m hm => (hplain m hm).free⟩

end Marshal
