import Marshal.Conversion.Methods
import Marshal.Proofs.Code.Tree

/-!
# Conversions called in bodies

The body of a method converts the parts of a value by further conversions. When it reads, such a
call gets a variable by reference; when it writes, the call stands behind the value. The calls are
found in the texts of a body. Scalars call no conversion, and the variables that bodies declare for
their calls have the type of a dependency (`temporary_shared`) or of a nullable field
(`temporary_readComposite_iff`).
-/

namespace Marshal

namespace Conversion

open Code TypeExpr

/-- The statement calls a conversion. -/
def Calls : Direction → Stmt → Prop
  | .fromJson, stmt => ∃ source target, stmt = Read.call source target
  | .toJson, stmt => ∃ text ∈ stmt.values, (Write.call "").toList <:+: text.toList

/-- The statement converts the variable `name`, and this is all that it does or all that it gives as
a value. -/
def Passes : Direction → String → Stmt → Prop
  | .fromJson, name, stmt => ∃ source, stmt = Read.call source name
  | .toJson, name, stmt => Write.call name ∈ stmt.values

theorem Passes.calls {direction : Direction} {name : String} {stmt : Stmt}
    (h : Passes direction name stmt) : Calls direction stmt := by
  cases direction with
  | fromJson =>
    obtain ⟨source, rfl⟩ := h
    exact ⟨source, name, rfl⟩
  | toJson =>
    refine ⟨_, h, name.toList, [], ?_⟩
    simp [Write.call]

/-- The block declares a variable and converts it. Both are to happen in one block: texts alone do
not tell a variable of an outer block from a part of a field's name. -/
def Holds (direction : Direction) (type name : String) (block : List Stmt) : Prop :=
  (∃ construct value, .declare type name construct value ∈ block) ∧
    ∃ stmt ∈ block, Passes direction name stmt

/-- A block of the body, at any depth, declares a variable of this type and converts it. -/
def Temporary (direction : Direction) (body : List Stmt) (type : String) : Prop :=
  ∃ name, ∃ block ∈ blocks body, Holds direction type name block

/-! ## Calls in the texts of statements -/

theorem calls_read (source target : String) : Calls .fromJson (Read.call source target) :=
  ⟨source, target, rfl⟩

theorem passes_read (source name : String) : Passes .fromJson name (Read.call source name) :=
  ⟨source, rfl⟩

theorem declare_ne_read {type name source target : String} {construct value : Option String} :
    .declare type name construct value ≠ Read.call source target :=
  nofun

theorem blocks_read (source target : String) : (Read.call source target).blocks = [] := by
  simp [Read.call]

theorem not_calls_of_ne {stmt : Stmt} (h : ∀ text, stmt ≠ .expr text) : ¬ Calls .fromJson stmt := by
  rintro ⟨source, target, rfl⟩
  exact h _ rfl

theorem not_passes_of_ne {stmt : Stmt} {name : String} (h : ∀ text, stmt ≠ .expr text) :
    ¬ Passes .fromJson name stmt :=
  fun hpasses => not_calls_of_ne h hpasses.calls

theorem not_calls_expr {text : String} (h : 'J' ∉ text.toList) :
    ¬ Calls .fromJson (.expr text) := by
  rintro ⟨source, target, heq⟩
  obtain rfl := Stmt.expr.inj heq
  simp [Read.methodName] at h

theorem mem_call : 'J' ∈ (Write.call "").toList ∧ 'o' ∈ (Write.call "").toList := by decide

/-- A text that lacks a character of the call does not hold the call. -/
theorem not_call_infix {c : Char} (hc : c ∈ (Write.call "").toList) {text : List Char}
    (h : c ∉ text) : ¬ (Write.call "").toList <:+: text :=
  fun hcall => h (hcall.subset hc)

theorem call_infix (before source after : String) :
    (Write.call "").toList <:+: (before ++ Write.call source ++ after).toList :=
  ⟨before.toList ++ source.toList, after.toList, by simp [Write.call]⟩

/-! ## Scalars -/

theorem not_mem_keyword (kind : Scalar) : 'J' ∉ kind.keyword.toList := by
  cases kind <;> decide

theorem not_mem_numberText (kind : Scalar) : 'J' ∉ (Write.numberText kind).toList := by
  unfold Write.numberText
  split <;> simp

theorem scalar_read_calls_nothing (kind : Scalar) :
    Every (fun stmt => ¬ Calls .fromJson stmt) (Read.scalarBody kind) := by
  unfold Read.scalarBody
  split
  · simp [Read.whenPresent, Stmt.when, not_calls_of_ne]
  · simp [Read.whenPresent, Stmt.when, not_calls_of_ne]
  · simp [Read.numberBody, Read.whenPresent, Stmt.when, Stmt.define, not_calls_of_ne,
      not_calls_expr, not_mem_keyword]

theorem scalar_write_calls_nothing (kind : Scalar) :
    Every (fun stmt => ¬ Calls .toJson stmt) (Write.scalarBody kind) := by
  unfold Write.scalarBody
  split
  · simp [Write.numberBody, Stmt.construct, Stmt.define, Calls, not_call_infix mem_call.1,
      not_mem_numberText]
  · simp [Calls, Write.make, jsonType, not_call_infix mem_call.2]

/-! ## Shared types -/

theorem not_temporary {direction : Direction} {body : List Stmt}
    (h : Every (fun stmt => ¬ Calls direction stmt) body) (type : String) :
    ¬ Temporary direction body type := by
  rintro ⟨name, block, hblock, -, stmt, hstmt, hpasses⟩
  exact h block hblock stmt hstmt hpasses.calls

/-- The statement declares no other variables than `names`, and does not convert one of these. -/
def Spares (direction : Direction) (names : List String) (stmt : Stmt) : Prop :=
  (∀ other ∈ stmt.declared?, other ∈ names) ∧ ∀ name ∈ names, ¬ Passes direction name stmt

theorem not_temporary_of_spares {direction : Direction} {names : List String} {body : List Stmt}
    (h : Every (Spares direction names) body) (type : String) :
    ¬ Temporary direction body type := by
  rintro ⟨name, block, hblock, ⟨construct, value, hdeclare⟩, stmt, hstmt, hpasses⟩
  have hname : name ∈ names := (h block hblock _ hdeclare).1 name rfl
  exact (h block hblock stmt hstmt).2 name hname hpasses

theorem csharp_scalar (kind : Scalar) : (scalar false kind).csharp = kind.keyword :=
  rfl

/-- When it reads, a shared type converts its dependency through a variable, and nothing else. -/
theorem temporary_read_iff {t : TypeExpr} {body : List Stmt} (h : Read.sharedBody? t = some body)
    {type : String} : Temporary .fromJson body type ↔ ∃ u ∈ t.dependency?, type = u.csharp := by
  cases t with
  | scalar b kind =>
    obtain rfl := Option.some.inj h
    simp [dependency?, not_temporary (scalar_read_calls_nothing kind)]
  | enum b name | array b elem | list b elem | dictionary b key value =>
    obtain rfl := Option.some.inj h
    simp [Temporary, Holds, blocks, dependency?, csharp_scalar, Read.enumBody, Read.arrayBody,
      Read.listBody, Read.sequenceBody, Read.dictionaryBody, Read.whenPresent, Stmt.when,
      Read.defaultValue, Stmt.define, blocks_read, passes_read, declare_ne_read, not_passes_of_ne]
  | composite => cases h

theorem spares_sequence_write {length : String} (h : 'J' ∉ length.toList) :
    Every (Spares .toJson ["len", "list"]) (Write.sequenceBody length) := by
  have hlen : "len.ToJSON()" ≠ length := by
    rintro rfl
    simp at h
  have hlist : "list.ToJSON()" ≠ length := by
    rintro rfl
    simp at h
  simp [Write.sequenceBody, Write.nullGuard, Spares, Stmt.when, Stmt.define,
    Stmt.construct, Passes, Write.call, Write.methodName, Write.make, jsonType, hlen,
    hlist]

theorem spares_dictionary_write : Every (Spares .toJson ["dict"]) Write.dictionaryBody := by
  simp [Write.dictionaryBody, Write.nullGuard, Spares, Stmt.when, Stmt.construct,
    Passes, Write.call, Write.methodName, Write.make, jsonType]

/-- When it writes, only the body of an enum converts through a variable. -/
theorem temporary_write {t : TypeExpr} {body : List Stmt} (h : Write.sharedBody? t = some body)
    {type : String} (htype : Temporary .toJson body type) :
    ∃ u ∈ t.dependency?, type = u.csharp := by
  cases t with
  | scalar b kind =>
    obtain rfl := Option.some.inj h
    exact absurd htype (not_temporary (scalar_write_calls_nothing kind) type)
  | enum b name =>
    obtain rfl := Option.some.inj h
    simpa [Temporary, Holds, blocks, Passes, Write.enumBody, Stmt.define, dependency?,
      csharp_scalar] using htype
  | array b elem | list b elem =>
    obtain rfl := Option.some.inj h
    exact absurd htype (not_temporary_of_spares (spares_sequence_write (by decide)) type)
  | dictionary b key value =>
    obtain rfl := Option.some.inj h
    exact absurd htype (not_temporary_of_spares spares_dictionary_write type)
  | composite => cases h

/-- What the body of a shared type converts through variables is the dependency of the type. -/
theorem temporary_shared {direction : Direction} {t : TypeExpr} {body : List Stmt}
    (h : sharedBody? direction t = some body) {type : String}
    (htype : Temporary direction body type) : ∃ u ∈ t.dependency?, type = u.csharp := by
  cases direction with
  | fromJson => exact (temporary_read_iff h).1 htype
  | toJson => exact temporary_write h htype

/-! ## Composites -/

theorem temporary_iff {direction : Direction} {body : List Stmt} {type : String} :
    Temporary direction body type ↔ (∃ name, Holds direction type name body) ∨
      ∃ stmt ∈ body, ∃ name, ∃ block ∈ stmt.blocks, Holds direction type name block := by
  simp only [Temporary, blocks, innerBlocks_eq_flatMap, List.exists_mem_cons_iff, List.mem_flatMap]
  grind

theorem blocks_readField (field : Field) :
    (Read.readField field).blocks =
      if field.type.isNullable then
        [[Read.nullableField field], [.assign (valueField field.name) "null"],
          [Read.defaultValue field.type.inner.csharp "actual",
            Read.call (rootMember field.name) "actual", .assign (valueField field.name) "actual"]]
      else [[Read.plainField field]] := by
  simp only [Read.readField, Stmt.when, Stmt.blocks, branchBlocks, otherwiseBlocks, innerBlocks]
  split
  · simp [Read.nullableField, Read.defaultValue, Stmt.define, blocks_read]
  · simp [Read.plainField, blocks_read]

/-- The block that reads a nullable field declares a variable for the value. -/
theorem holds_readField {field : Field} {type : String} :
    (∃ name, ∃ block ∈ (Read.readField field).blocks, Holds .fromJson type name block) ↔
      field.type.isNullable = true ∧ type = field.type.inner.csharp := by
  rw [blocks_readField]
  split
  · next hnullable =>
    simp [hnullable, Holds, Read.nullableField, Read.defaultValue, Stmt.define, declare_ne_read,
      passes_read, not_passes_of_ne]
  · next hplain => simp [hplain, Holds, Read.plainField, declare_ne_read]

theorem not_holds_of_inside {direction : Direction} {stmt : Stmt} {type : String}
    (h : stmt.Inside fun inner => inner.declared? = none) :
    ¬ ∃ name, ∃ block ∈ stmt.blocks, Holds direction type name block := by
  rintro ⟨name, block, hblock, ⟨construct, value, hdeclare⟩, -⟩
  cases h block hblock _ hdeclare

theorem mem_readComposite {c : Composite} {stmt : Stmt} (h : stmt ∈ Read.compositeBody c) :
    (∃ field ∈ c.fields, stmt = Read.readField field) ∨
      stmt.Inside fun inner => inner.declared? = none := by
  simp only [Read.compositeBody, List.mem_append, List.mem_flatMap] at h
  rcases h with (h | h) | ⟨field, hfield, h⟩
  · have hstart : ∀ stmt ∈ Read.allocateIfNull c.name,
        stmt.Inside fun inner => inner.declared? = none := by
      simp [Read.allocateIfNull, Stmt.when]
    split at h
    · exact .inr (hstart stmt h)
    · cases h
  · revert stmt
    simp [Stmt.when, Stmt.define]
  · rcases List.mem_cons.1 h with rfl | h
    · exact .inl ⟨field, hfield, rfl⟩
    · simp [List.mem_singleton.1 h]

/-- When it reads, a composite converts its nullable fields through variables, and no others. -/
theorem temporary_readComposite_iff {c : Composite} {type : String} :
    Temporary .fromJson (Read.compositeBody c) type ↔
      ∃ field ∈ c.fields, field.type.isNullable = true ∧ type = field.type.inner.csharp := by
  rw [temporary_iff]
  constructor
  · rintro (⟨name, -, stmt, hstmt, hpasses⟩ | ⟨stmt, hstmt, hholds⟩)
    · -- No call stands in the outermost block.
      refine absurd hpasses (not_passes_of_ne ?_)
      rintro text rfl
      simp [Read.compositeBody, Read.allocateIfNull, Read.readField, Stmt.when, Stmt.define]
        at hstmt
    · rcases mem_readComposite hstmt with ⟨field, hfield, rfl⟩ | hinside
      · exact ⟨field, hfield, holds_readField.1 hholds⟩
      · exact absurd hholds (not_holds_of_inside hinside)
  · rintro ⟨field, hfield, htype⟩
    have hstmt : Read.readField field ∈ Read.compositeBody c :=
      List.mem_append_right _ (List.mem_flatMap.2 ⟨field, hfield, List.mem_cons_self⟩)
    exact .inr ⟨_, hstmt, holds_readField.2 htype⟩

theorem call_root_ne (name after : String) :
    Write.call "root" ≠ Write.call (valueField name ++ after) := by
  intro h
  have hchars := congrArg String.toList h
  simp [Write.call, valueField] at hchars

theorem spares_writeField (s : Schema) (field : Field) :
    Every (Spares .toJson ["root"]) [Write.writeField s field] := by
  have hplain := call_root_ne field.name ""
  have hvalue := call_root_ne field.name ".Value"
  rw [String.append_empty] at hplain
  unfold Write.writeField
  split
  · unfold Write.presentValue
    split <;> simp [Spares, Stmt.when, Passes, hplain, hvalue]
  · simp [Spares, Passes, hplain]

/-- When it writes, a composite converts nothing through a variable. -/
theorem not_temporary_writeComposite (s : Schema) (c : Composite) (type : String) :
    ¬ Temporary .toJson (Write.compositeBody s c) type := by
  have hmake : ∀ content, Write.call "root" ≠ Write.make content := by
    intro content h
    have hchars := congrArg String.toList h
    simp [Write.call, Write.make, jsonType] at hchars
  have hempty : Write.call "root" ≠ "" := by simp [Write.call]
  have hguard : Every (Spares .toJson ["root"]) (if c.isRef then Write.nullGuard else []) := by
    split <;> simp [Write.nullGuard, Stmt.when, Spares, Passes, hmake]
  have hbody : Every (Spares .toJson ["root"]) (Write.compositeBody s c) := by
    rw [Write.compositeBody, List.map_eq_flatMap]
    simp only [every_append, every_flatMap]
    refine ⟨⟨⟨hguard, ?_⟩, fun field _ => spares_writeField s field⟩, ?_⟩
    · simp [Stmt.construct, Spares, Passes, hempty]
    · simp [Spares, Passes, hmake]
  exact not_temporary_of_spares hbody type

end Conversion

end Marshal
