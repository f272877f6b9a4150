import Marshal.Proofs.Conversion.Calls

/-!
# What conversions are called on

When a body writes, conversions are called on parts of the value `val`, and when it reads, on the
JSON values of such parts. `SharedPart` and `FieldPart` say which expressions stand for them, and of
which types the parts are. Bodies call conversions on all of these expressions, and on no others
(`callsOnParts_shared`, `callsOnParts_composite`). The parts of a shared type are what it depends
on, so its body has a call exactly if it depends on another type (`calls_nothing_iff`).
-/

namespace Marshal

namespace Conversion

open Code TypeExpr

/-- The statement calls a conversion on this expression. When it writes, the call is the value of
the statement, or the item that the statement adds to a list. -/
def CallsOn : Direction → String → Stmt → Prop
  | .fromJson, receiver, stmt => ∃ target, stmt = Read.call receiver target
  | .toJson, receiver, stmt => stmt.values = [Write.call receiver] ∨
    stmt.values = ["list.Add(" ++ Write.call receiver ++ ")"]

/-- The expressions for the parts of a value of a shared type, with the types of the parts. An enum
has the number that stores it, a sequence its items, and a dictionary the values of its entries. -/
inductive SharedPart : Direction → TypeExpr → String → TypeExpr → Prop where
  | readNumber {b : Bool} {name : String} :
    SharedPart .fromJson (enum b name) "type" (scalar false enumStorage)
  | readArrayItem {b : Bool} {elem : TypeExpr} :
    SharedPart .fromJson (array b elem) "list[i]" elem
  | readListItem {b : Bool} {elem : TypeExpr} : SharedPart .fromJson (list b elem) "list[i]" elem
  | readEntry {b : Bool} {key value : TypeExpr} :
    SharedPart .fromJson (dictionary b key value) "pair.Value" value
  | writeNumber {b : Bool} {name : String} :
    SharedPart .toJson (enum b name) "asInt" (scalar false enumStorage)
  | writeArrayItem {b : Bool} {elem : TypeExpr} : SharedPart .toJson (array b elem) "val[i]" elem
  | writeListItem {b : Bool} {elem : TypeExpr} : SharedPart .toJson (list b elem) "val[i]" elem
  | writeEntry {b : Bool} {key value : TypeExpr} :
    SharedPart .toJson (dictionary b key value) "pair.Value" value

/-- The expressions for the fields of a composite, with their types without the mark. Of a nullable
field that is a structure around its value, this value is written. -/
inductive FieldPart (s : Schema) (c : Composite) : Direction → String → TypeExpr → Prop where
  | member {field : Field} (hfield : field ∈ c.fields) :
    FieldPart s c .fromJson ("root[\"" ++ field.name ++ "\"]") field.type.inner
  | whole {field : Field} (hfield : field ∈ c.fields)
      (hwhole : field.type.isNullable = true → Write.isValueType s field.type = false) :
    FieldPart s c .toJson ("val." ++ field.name) field.type.inner
  | wrapped {field : Field} (hfield : field ∈ c.fields) (hnullable : field.type.isNullable = true)
      (hvalue : Write.isValueType s field.type = true) :
    FieldPart s c .toJson ("val." ++ field.name ++ ".Value") field.type.inner

/-- The statement calls a conversion on the expression for a part. -/
def OnPart (direction : Direction) (part : String → TypeExpr → Prop) (stmt : Stmt) : Prop :=
  ∃ receiver, (∃ type, part receiver type) ∧ CallsOn direction receiver stmt

/-- The body calls conversions on the expressions for the parts alone, and on all of them. -/
structure CallsOnParts (direction : Direction) (part : String → TypeExpr → Prop)
    (body : List Stmt) : Prop where
  only : Every (fun stmt => Calls direction stmt → OnPart direction part stmt) body
  each : ∀ receiver type, part receiver type →
    ∃ block ∈ blocks body, ∃ stmt ∈ block, CallsOn direction receiver stmt

/-! ## Statements -/

section

variable {direction : Direction} {part : String → TypeExpr → Prop} {receiver : String}
  {type : TypeExpr} {stmt : Stmt}

theorem CallsOn.calls (h : CallsOn direction receiver stmt) : Calls direction stmt := by
  cases direction with
  | fromJson =>
    obtain ⟨target, rfl⟩ := h
    exact calls_read receiver target
  | toJson =>
    rcases h with h | h
    · refine ⟨_, h ▸ List.mem_singleton_self _, ?_⟩
      simpa using call_infix "" receiver ""
    · exact ⟨_, h ▸ List.mem_singleton_self _, call_infix _ receiver _⟩

theorem CallsOn.onPart (h : CallsOn direction receiver stmt) (hpart : part receiver type) :
    OnPart direction part stmt :=
  ⟨receiver, ⟨type, hpart⟩, h⟩

theorem inside_read {p : Stmt → Prop} (target : String) : (Read.call receiver target).Inside p :=
  inside_expr

theorem exists_of_not_every {p : Stmt → Prop} {body : List Stmt}
    (h : ¬ Every (fun stmt => ¬ p stmt) body) : ∃ block ∈ blocks body, ∃ stmt ∈ block, p stmt := by
  simpa [Every] using h

end

/-! ## Shared types -/

theorem callsOn_read (receiver target : String) :
    CallsOn .fromJson receiver (Read.call receiver target) :=
  ⟨target, rfl⟩

theorem callsOn_item :
    CallsOn .toJson "val[i]" (.expr ("list.Add(" ++ Write.call "val[i]" ++ ")")) :=
  .inr rfl

theorem callsOn_entry : CallsOn .toJson "pair.Value"
    (.assign "dict[pair.Key.ToString()]" (Write.call "pair.Value")) :=
  .inl rfl

theorem callsOn_ret (receiver : String) :
    CallsOn .toJson receiver (.ret (some (Write.call receiver))) :=
  .inl rfl

section

variable {t : TypeExpr} {body : List Stmt}

theorem onPart_sequence_read {part : String → TypeExpr → Prop} {type : TypeExpr}
    (hpart : part "list[i]" type) (elem allocation : String) {store : Stmt}
    (hstore : Every (fun stmt => ¬ Calls .fromJson stmt) [store]) :
    Every (fun stmt => Calls .fromJson stmt → OnPart .fromJson part stmt)
      (Read.sequenceBody elem allocation store) := by
  have hcall := (callsOn_read "list[i]" "element").onPart hpart
  obtain ⟨⟨hnot, hinside⟩, -⟩ := every_cons.1 hstore
  have hquiet : store.Inside fun stmt => Calls .fromJson stmt → OnPart .fromJson part stmt :=
    fun block hblock stmt hstmt hcalls => absurd hcalls (hinside block hblock stmt hstmt)
  simp [Read.sequenceBody, Read.whenPresent, Stmt.when, Read.defaultValue, Stmt.define,
    inside_read, not_calls_of_ne, hcall, hnot, hquiet]

theorem onPart_read_shared (h : Read.sharedBody? t = some body) :
    Every (fun stmt => Calls .fromJson stmt → OnPart .fromJson (SharedPart .fromJson t) stmt)
      body := by
  cases t with
  | scalar b kind =>
    obtain rfl := Option.some.inj h
    exact (scalar_read_calls_nothing kind).imp fun _ hnot hcalls => absurd hcalls hnot
  | enum b name =>
    obtain rfl := Option.some.inj h
    have hcall : OnPart .fromJson (SharedPart .fromJson (enum b name)) (Read.call "type" "num") :=
      (callsOn_read "type" "num").onPart .readNumber
    simp [Read.enumBody, Read.whenPresent, Stmt.when, Read.defaultValue, Stmt.define, inside_read,
      not_calls_of_ne, hcall]
  | array b elem =>
    obtain rfl := Option.some.inj h
    exact onPart_sequence_read .readArrayItem _ _ (by simp [not_calls_of_ne])
  | list b elem =>
    obtain rfl := Option.some.inj h
    exact onPart_sequence_read .readListItem _ _ (by simp [not_calls_expr])
  | dictionary b key value =>
    obtain rfl := Option.some.inj h
    have hcall : OnPart .fromJson (SharedPart .fromJson (dictionary b key value))
        (Read.call "pair.Value" "pairVal") :=
      (callsOn_read "pair.Value" "pairVal").onPart .readEntry
    simp [Read.dictionaryBody, Read.whenPresent, Stmt.when, Read.defaultValue, Stmt.define,
      inside_read, not_calls_of_ne, hcall]
  | composite => cases h

theorem onPart_sequence_write {part : String → TypeExpr → Prop} {type : TypeExpr}
    (hpart : part "val[i]" type) {length : String} (hlength : 'J' ∉ length.toList) :
    Every (fun stmt => Calls .toJson stmt → OnPart .toJson part stmt)
      (Write.sequenceBody length) := by
  have hcall := callsOn_item.onPart hpart
  simp [Write.sequenceBody, Write.nullGuard, Stmt.when, Stmt.define, Stmt.construct, Write.make,
    jsonType, Calls, not_call_infix mem_call.1, not_call_infix mem_call.2, hlength, hcall]

theorem onPart_write_shared (h : Write.sharedBody? t = some body) :
    Every (fun stmt => Calls .toJson stmt → OnPart .toJson (SharedPart .toJson t) stmt) body := by
  cases t with
  | scalar b kind =>
    obtain rfl := Option.some.inj h
    exact (scalar_write_calls_nothing kind).imp fun _ hnot hcalls => absurd hcalls hnot
  | enum b name =>
    obtain rfl := Option.some.inj h
    have hcall : OnPart .toJson (SharedPart .toJson (enum b name))
        (.ret (some (Write.call "asInt"))) := (callsOn_ret "asInt").onPart .writeNumber
    simp [Write.enumBody, Stmt.define, Calls, not_call_infix mem_call.1, not_mem_keyword, hcall]
  | array b elem =>
    obtain rfl := Option.some.inj h
    exact onPart_sequence_write .writeArrayItem (by decide)
  | list b elem =>
    obtain rfl := Option.some.inj h
    exact onPart_sequence_write .writeListItem (by decide)
  | dictionary b key value =>
    obtain rfl := Option.some.inj h
    have hcall : OnPart .toJson (SharedPart .toJson (dictionary b key value))
        (.assign "dict[pair.Key.ToString()]" (Write.call "pair.Value")) :=
      callsOn_entry.onPart .writeEntry
    simp [Write.dictionaryBody, Write.nullGuard, Stmt.when, Stmt.construct, Write.make, jsonType,
      Calls, not_call_infix mem_call.2, hcall]
  | composite => cases h

theorem exists_callsOn_shared {direction : Direction} {receiver : String} {type : TypeExpr}
    (h : sharedBody? direction t = some body) (hpart : SharedPart direction t receiver type) :
    ∃ block ∈ blocks body, ∃ stmt ∈ block, CallsOn direction receiver stmt := by
  apply exists_of_not_every
  cases hpart with
  | readNumber =>
    obtain rfl := Option.some.inj h
    simp [Read.enumBody, Read.whenPresent, Stmt.when, callsOn_read]
  | readArrayItem | readListItem =>
    obtain rfl := Option.some.inj h
    simp [Read.arrayBody, Read.listBody, Read.sequenceBody, Read.whenPresent, Stmt.when,
      callsOn_read]
  | readEntry =>
    obtain rfl := Option.some.inj h
    simp [Read.dictionaryBody, Read.whenPresent, Stmt.when, callsOn_read]
  | writeNumber =>
    obtain rfl := Option.some.inj h
    simp [Write.enumBody, callsOn_ret]
  | writeArrayItem | writeListItem =>
    obtain rfl := Option.some.inj h
    simp [Write.sequenceBody, callsOn_item]
  | writeEntry =>
    obtain rfl := Option.some.inj h
    simp [Write.dictionaryBody, callsOn_entry]

theorem callsOnParts_shared {direction : Direction} (h : sharedBody? direction t = some body) :
    CallsOnParts direction (SharedPart direction t) body := by
  refine ⟨?_, fun receiver type hpart => exists_callsOn_shared h hpart⟩
  cases direction with
  | fromJson => exact onPart_read_shared h
  | toJson => exact onPart_write_shared h

/-- The types of the parts are the dependency of the type. -/
theorem exists_sharedPart_iff (direction : Direction) {u : TypeExpr} :
    (∃ receiver, SharedPart direction t receiver u) ↔ u ∈ t.dependency? := by
  constructor
  · rintro ⟨receiver, hpart⟩
    cases hpart <;> rfl
  · intro hu
    cases t with
    | scalar | composite => cases hu
    | enum =>
      obtain rfl := Option.some.inj hu
      cases direction with
      | fromJson => exact ⟨_, .readNumber⟩
      | toJson => exact ⟨_, .writeNumber⟩
    | array =>
      obtain rfl := Option.some.inj hu
      cases direction with
      | fromJson => exact ⟨_, .readArrayItem⟩
      | toJson => exact ⟨_, .writeArrayItem⟩
    | list =>
      obtain rfl := Option.some.inj hu
      cases direction with
      | fromJson => exact ⟨_, .readListItem⟩
      | toJson => exact ⟨_, .writeListItem⟩
    | dictionary =>
      obtain rfl := Option.some.inj hu
      cases direction with
      | fromJson => exact ⟨_, .readEntry⟩
      | toJson => exact ⟨_, .writeEntry⟩

/-- The body of a shared type calls no conversion exactly if the type depends on nothing. -/
theorem calls_nothing_iff {direction : Direction} (h : sharedBody? direction t = some body) :
    Every (fun stmt => ¬ Calls direction stmt) body ↔ t.dependency? = none := by
  have hparts := callsOnParts_shared h
  constructor
  · intro hnothing
    refine Option.eq_none_iff_forall_ne_some.2 fun u hu => ?_
    obtain ⟨receiver, hpart⟩ := (exists_sharedPart_iff direction).2 hu
    obtain ⟨block, hblock, stmt, hstmt, hcall⟩ := hparts.each receiver u hpart
    exact hnothing block hblock stmt hstmt hcall.calls
  · intro hnone
    refine hparts.only.imp fun stmt honly hcalls => ?_
    obtain ⟨receiver, ⟨u, hpart⟩, -⟩ := honly hcalls
    have hu := (exists_sharedPart_iff direction).1 ⟨receiver, hpart⟩
    rw [hnone] at hu
    cases hu

end

/-! ## Composites -/

section

variable (s : Schema) (c : Composite)

theorem callsOnParts_readComposite :
    CallsOnParts .fromJson (FieldPart s c .fromJson) (Read.compositeBody c) := by
  constructor
  case only =>
    rw [Read.compositeBody]
    simp only [every_append, every_flatMap]
    refine ⟨⟨?_, ?_⟩, fun field hfield => ?_⟩
    · split <;> simp [Read.allocateIfNull, Stmt.when, not_calls_of_ne]
    · simp [Stmt.when, Stmt.define, not_calls_of_ne]
    · have hcall : ∀ target, OnPart .fromJson (FieldPart s c .fromJson)
          (Read.call (rootMember field.name) target) :=
        fun target => (callsOn_read (rootMember field.name) target).onPart (.member hfield)
      unfold Read.readField
      split <;> simp [Stmt.when, Read.nullableField, Read.plainField, Read.defaultValue,
        Stmt.define, inside_read, not_calls_of_ne, hcall]
  case each =>
    rintro _ _ (@⟨field, hfield⟩)
    refine exists_of_not_every fun hnever => ?_
    have hfieldNever := every_flatMap.1 (every_append.1 hnever).2 field hfield
    have hcall : ∀ target, CallsOn .fromJson ("root[\"" ++ field.name ++ "\"]")
        (Read.call (rootMember field.name) target) := callsOn_read (rootMember field.name)
    revert hfieldNever
    unfold Read.readField
    split <;> simp [Stmt.when, Read.nullableField, Read.plainField, hcall]

variable {s c} {field : Field}

/-- What the conversion of a field is called on when it is written. -/
def writtenOn (s : Schema) (field : Field) : String :=
  if field.type.isNullable then Write.presentValue s field else valueField field.name

theorem writeField_eq : Write.writeField s field =
    if field.type.isNullable then
      .when (valueField field.name ++ " != null")
        [.assign (rootMember field.name) (Write.call (writtenOn s field))]
    else .assign (rootMember field.name) (Write.call (writtenOn s field)) := by
  unfold Write.writeField writtenOn
  split <;> rfl

theorem fieldPart_writtenOn (hfield : field ∈ c.fields) :
    FieldPart s c .toJson (writtenOn s field) field.type.inner := by
  unfold writtenOn Write.presentValue
  split
  · next hnullable =>
    split
    · next hvalue => exact .wrapped hfield hnullable hvalue
    · next hvalue => exact .whole hfield fun _ => by simpa using hvalue
  · next hplain => exact .whole hfield fun hnullable => absurd hnullable hplain

theorem FieldPart.exists_eq_writtenOn {receiver : String} {type : TypeExpr}
    (h : FieldPart s c .toJson receiver type) :
    ∃ field ∈ c.fields, receiver = writtenOn s field := by
  cases h with
  | @whole field hfield hwhole =>
    refine ⟨field, hfield, ?_⟩
    unfold writtenOn Write.presentValue
    split
    · next hnullable => rw [hwhole hnullable]; rfl
    · rfl
  | @wrapped field hfield hnullable hvalue =>
    refine ⟨field, hfield, ?_⟩
    rw [writtenOn, if_pos hnullable, Write.presentValue, if_pos hvalue]
    rfl

theorem callsOnParts_writeComposite :
    CallsOnParts .toJson (FieldPart s c .toJson) (Write.compositeBody s c) := by
  constructor
  case only =>
    have hroot : ¬ (Write.call "").toList <:+: (Write.make "root").toList := by
      decide +kernel
    have hnull : ¬ (Write.call "").toList <:+: (Write.make "").toList := by
      decide +kernel
    have hempty : Write.call "" ≠ "" := by simp [Write.call]
    rw [Write.compositeBody, List.map_eq_flatMap]
    simp only [every_append, every_flatMap]
    refine ⟨⟨⟨?_, ?_⟩, fun field hfield => ?_⟩, ?_⟩
    · split <;> simp [Write.nullGuard, Stmt.when, Calls, hnull]
    · simp [Stmt.construct, Calls, hempty]
    · have hcall : OnPart .toJson (FieldPart s c .toJson)
          (.assign (rootMember field.name) (Write.call (writtenOn s field))) :=
        CallsOn.onPart (.inl rfl) (fieldPart_writtenOn hfield)
      rw [writeField_eq]
      split <;> simp [Stmt.when, Calls, hcall]
    · simp [Calls, hroot]
  case each =>
    intro receiver type hpart
    obtain ⟨field, hfield, rfl⟩ := hpart.exists_eq_writtenOn
    refine exists_of_not_every fun hnever => ?_
    rw [Write.compositeBody, List.map_eq_flatMap] at hnever
    have hfieldNever := every_flatMap.1 (every_append.1 (every_append.1 hnever).1).2 field hfield
    have hcall : CallsOn .toJson (writtenOn s field)
        (.assign (rootMember field.name) (Write.call (writtenOn s field))) := .inl rfl
    revert hfieldNever
    rw [writeField_eq]
    split <;> simp [Stmt.when, hcall]

end

theorem callsOnParts_composite (direction : Direction) (s : Schema) (c : Composite) :
    CallsOnParts direction (FieldPart s c direction) (compositeMethod direction s c).body := by
  cases direction with
  | fromJson => exact callsOnParts_readComposite s c
  | toJson => exact callsOnParts_writeComposite

end Conversion

end Marshal
