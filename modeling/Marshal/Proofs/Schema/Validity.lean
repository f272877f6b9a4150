import Marshal.Proofs.Outcome
import Marshal.Schema.Reader

/-!
# Valid documents

What a schema document has to be, and what is wrong with one that is none, said member by member and
without the reader. Every level of a document has its own items: the members of the document, the
fields of a type, the listed types. At each level the first item at fault decides the error
(`FirstFault`). Main statements: a member is read exactly if it is valid (`readEntry_ok_iff_valid`),
and otherwise for the fault that it has (`readEntry_eq_error_iff`).
-/

namespace Marshal

namespace Schema

open TypeExpr

/-! ## What a document has to be -/

/-- The members of a declaration that declare fields. -/
def fieldMembers (members : List (String × Json)) : List (String × Json) :=
  members.filter fun member => !isDirective member.1

theorem fieldMembers_append (members rest : List (String × Json)) :
    fieldMembers (members ++ rest) = fieldMembers members ++ fieldMembers rest :=
  List.filter_append members rest

/-- The member gives a field a type. -/
def ValidField (member : String × Json) : Prop :=
  ∃ text t, member.2 = .str text ∧ parse text = .ok t

/-- The mark of reference types, if there is one, is a boolean. -/
def ValidMark (members : List (String × Json)) : Prop :=
  ∀ value, members.lookup referenceKey = some value → ∃ b, value = .bool b

/-- The value declares a type. -/
def ValidType (value : Json) : Prop :=
  ∃ members, value = .obj members ∧ ValidMark members ∧
    ∀ member ∈ members, isDirective member.1 = false → ValidField member

/-- The item names a type that can have a shared conversion. -/
def ValidItem (item : Json) : Prop :=
  ∃ text t, item = .str text ∧ parse text = .ok t ∧ t.isComposite = false ∧ t.isNullable = false

/-- The value lists types. -/
def ValidList (value : Json) : Prop :=
  ∃ items, value = .arr items ∧ ∀ item ∈ items, ValidItem item

def ValidEntry (member : String × Json) : Prop :=
  if member.1 = sharedKey then ValidList member.2 else ValidType member.2

/-! ## What may be wrong with it -/

/-- The error is that of the first item at fault. -/
def FirstFault {α : Type} (Valid : α → Prop) (Fault : α → SchemaError → Prop) (items : List α)
    (e : SchemaError) : Prop :=
  ∃ before item after, items = before ++ item :: after ∧ (∀ x ∈ before, Valid x) ∧ Fault item e

/-- What is wrong with a field of the type `type`. -/
inductive FieldFault (type : String) : String × Json → SchemaError → Prop where
  | notString {name : String} {value : Json} (h : ∀ text, value ≠ .str text) :
      FieldFault type (name, value) (.fieldTypeNotString type name)
  | malformed {name text : String} {e : SchemaError} (h : parse text = .error e) :
      FieldFault type (name, .str text) e

/-- What is wrong with the item at an index of the listed types. -/
inductive ItemFault : Json × Nat → SchemaError → Prop where
  | notString {item : Json} {index : Nat} (h : ∀ text, item ≠ .str text) :
      ItemFault (item, index) (.sharedNotString index)
  | malformed {text : String} {index : Nat} {e : SchemaError} (h : parse text = .error e) :
      ItemFault (.str text, index) e
  | composite {text : String} {index : Nat} {t : TypeExpr} (ht : parse text = .ok t)
      (h : t.isComposite = true) : ItemFault (.str text, index) (.sharedComposite text)
  | nullable {text : String} {index : Nat} {t : TypeExpr} (ht : parse text = .ok t)
      (hs : t.isComposite = false) (h : t.isNullable = true) :
      ItemFault (.str text, index) (.unsupported text)

/-- What is wrong with a member of a document. In a declaration the mark comes before all fields,
wherever it stands. -/
inductive EntryFault : String × Json → SchemaError → Prop where
  | notArray {value : Json} (h : ∀ items, value ≠ .arr items) :
      EntryFault (sharedKey, value) .sharedNotArray
  | item {items : List Json} {e : SchemaError}
      (h : FirstFault (fun item => ValidItem item.1) ItemFault items.zipIdx e) :
      EntryFault (sharedKey, .arr items) e
  | notObject {name : String} {value : Json} (hname : name ≠ sharedKey)
      (h : ∀ members, value ≠ .obj members) :
      EntryFault (name, value) (.descriptionNotObject name)
  | mark {name : String} {members : List (String × Json)} (hname : name ≠ sharedKey)
      (h : ¬ ValidMark members) : EntryFault (name, .obj members) (.referenceMarkNotBool name)
  | field {name : String} {members : List (String × Json)} {e : SchemaError}
      (hname : name ≠ sharedKey) (hmark : ValidMark members)
      (h : FirstFault ValidField (FieldFault name) (fieldMembers members) e) :
      EntryFault (name, .obj members) e

/-! ## What it stands for -/

/-- The member declares the field. -/
structure DeclaresField (member : String × Json) (field : Field) : Prop where
  name : field.name = member.1
  type : ∃ text, member.2 = .str text ∧ parse text = .ok field.type

/-- The member declares the composite. The fields stand in the order of their members, and the mere
presence of the mark makes a reference type. -/
structure DeclaresType (member : String × Json) (c : Composite) : Prop where
  name : c.name = member.1
  body : ∃ members, member.2 = .obj members ∧
    (c.isRef = true ↔ referenceKey ∈ members.map Prod.fst) ∧
    List.Forall₂ DeclaresField (fieldMembers members) c.fields

/-- The items of the list of shared types. -/
def listedItems (members : List (String × Json)) : List Json :=
  (members.filter fun member => member.1 = sharedKey).flatMap fun member =>
    match member.2 with
    | .arr items => items
    | _ => []

/-- The document declares the types and lists the shared types of the schema, in this order. -/
structure Describes (members : List (String × Json)) (s : Schema) : Prop where
  types : List.Forall₂ DeclaresType (members.filter fun member => member.1 ≠ sharedKey) s.types
  shared : List.Forall₂ (fun item t => ∃ text, item = .str text ∧ parse text = .ok t)
    (listedItems members) s.shared

/-! ## Reading items one after another -/

section FirstFault

variable {α β : Type} {f : α → Except SchemaError β} {Valid : α → Prop}
  {Fault : α → SchemaError → Prop}

theorem mapM_ok_iff_valid (hvalid : ∀ x, (∃ y, f x = .ok y) ↔ Valid x) {items : List α} :
    (∃ ys, items.mapM f = .ok ys) ↔ ∀ x ∈ items, Valid x := by
  simp only [Outcome.exists_mapM_eq_ok_iff, hvalid]

theorem mapM_error_iff_firstFault (hvalid : ∀ x, (∃ y, f x = .ok y) ↔ Valid x)
    (hfault : ∀ x e, f x = .error e ↔ Fault x e) {items : List α} {e : SchemaError} :
    items.mapM f = .error e ↔ FirstFault Valid Fault items e := by
  simp only [Outcome.mapM_eq_error_iff, hvalid, hfault, FirstFault]

end FirstFault

/-! ## Fields -/

theorem readField_eq_ok_iff {type : String} {member : String × Json} {field : Field} :
    readField type member = .ok field ↔ DeclaresField member field := by
  obtain ⟨name, value⟩ := member
  cases value with
  | str text =>
    simp only [readField, Outcome.map_eq_ok_iff]
    constructor
    · rintro ⟨t, ht, rfl⟩
      exact ⟨rfl, text, rfl, ht⟩
    · rintro ⟨rfl, text', htext, ht⟩
      obtain rfl := Json.str.inj htext
      exact ⟨field.type, ht, rfl⟩
  | _ =>
    refine ⟨nofun, ?_⟩
    rintro ⟨-, text, htext, -⟩
    cases htext

theorem readField_ok_iff_valid {type : String} (member : String × Json) :
    (∃ field, readField type member = .ok field) ↔ ValidField member := by
  simp only [readField_eq_ok_iff]
  constructor
  · rintro ⟨field, -, text, htext, ht⟩
    exact ⟨text, field.type, htext, ht⟩
  · rintro ⟨text, t, htext, ht⟩
    exact ⟨⟨member.1, t⟩, rfl, text, htext, ht⟩

theorem readField_eq_error_iff {type : String} (member : String × Json) (e : SchemaError) :
    readField type member = .error e ↔ FieldFault type member e := by
  obtain ⟨name, value⟩ := member
  cases value with
  | str text =>
    simp only [readField]
    constructor
    · intro h
      exact .malformed (Outcome.map_eq_error_iff.1 h)
    · rintro (hne | h)
      · exact absurd rfl (hne text)
      · exact Outcome.map_eq_error_iff.2 h
  | _ =>
    simp only [readField, Except.error.injEq]
    constructor
    · rintro rfl
      exact .notString nofun
    · rintro ⟨-⟩
      rfl

/-! ## Declarations -/

theorem readReferenceMark_of_valid {name : String} {members : List (String × Json)}
    (h : ValidMark members) :
    readReferenceMark name members = .ok (members.lookup referenceKey).isSome := by
  unfold readReferenceMark
  cases hlookup : members.lookup referenceKey with
  | none => rfl
  | some value =>
    obtain ⟨b, rfl⟩ := h value hlookup
    rfl

theorem readReferenceMark_of_not_valid {name : String} {members : List (String × Json)}
    (h : ¬ ValidMark members) :
    readReferenceMark name members = .error (.referenceMarkNotBool name) := by
  unfold readReferenceMark
  split
  · next hlookup => exact absurd (fun value hvalue => by simp [hlookup] at hvalue) h
  · next b hlookup =>
    exact absurd (fun value hvalue => ⟨b, Option.some.inj (hvalue.symm.trans hlookup)⟩) h
  · rfl

theorem readComposite_of_not_valid {name : String} {members : List (String × Json)}
    (h : ¬ ValidMark members) :
    readComposite name members = .error (.referenceMarkNotBool name) := by
  rw [readComposite, readReferenceMark_of_not_valid h]
  rfl

theorem readComposite_of_valid {name : String} {members : List (String × Json)}
    (h : ValidMark members) :
    readComposite name members =
      ((fieldMembers members).mapM (readField name)).map
        fun fields => ⟨name, (members.lookup referenceKey).isSome, fields⟩ := by
  rw [readComposite, readReferenceMark_of_valid h]
  rw [fieldMembers]
  cases (members.filter fun member => !isDirective member.1).mapM (readField name) <;> rfl

theorem validType_obj {members : List (String × Json)} :
    ValidType (.obj members) ↔ ValidMark members ∧ ∀ m ∈ fieldMembers members, ValidField m := by
  simp only [ValidType, Json.obj.injEq, exists_eq_left', fieldMembers, List.mem_filter,
    Bool.not_eq_true', and_imp]

theorem readComposite_ok_iff_valid {name : String} (members : List (String × Json)) :
    (∃ c, readComposite name members = .ok c) ↔ ValidType (.obj members) := by
  rw [validType_obj]
  by_cases hmark : ValidMark members
  · rw [readComposite_of_valid hmark, Outcome.exists_map_eq_ok_iff,
      mapM_ok_iff_valid readField_ok_iff_valid, and_iff_right hmark]
  · simp [readComposite_of_not_valid hmark, hmark]

theorem declaresType_of_readComposite {name : String} {members : List (String × Json)}
    {c : Composite} (h : readComposite name members = .ok c) :
    DeclaresType (name, .obj members) c := by
  have hmark := (validType_obj.1 ((readComposite_ok_iff_valid members).1 ⟨c, h⟩)).1
  rw [readComposite_of_valid hmark] at h
  obtain ⟨fields, hfields, rfl⟩ := Outcome.map_eq_ok_iff.1 h
  refine ⟨rfl, members, rfl, ?_, ?_⟩
  · simp [List.lookup_isSome_iff]
  · exact (Outcome.mapM_eq_ok_iff.1 hfields).imp fun _ _ => readField_eq_ok_iff.1

theorem entryFault_obj_iff {name : String} (hname : name ≠ sharedKey)
    {members : List (String × Json)} {e : SchemaError} :
    EntryFault (name, .obj members) e ↔
      ¬ ValidMark members ∧ e = .referenceMarkNotBool name ∨
        ValidMark members ∧ FirstFault ValidField (FieldFault name) (fieldMembers members) e := by
  constructor
  · intro h
    cases h with
    | notArray => exact absurd rfl hname
    | notObject _ hne => exact absurd rfl (hne members)
    | mark _ hbad => exact .inl ⟨hbad, rfl⟩
    | field _ hmark hfirst => exact .inr ⟨hmark, hfirst⟩
  · rintro (⟨hbad, rfl⟩ | ⟨hmark, hfirst⟩)
    · exact .mark hname hbad
    · exact .field hname hmark hfirst

theorem readComposite_eq_error_iff {name : String} (hname : name ≠ sharedKey)
    {members : List (String × Json)} {e : SchemaError} :
    readComposite name members = .error e ↔ EntryFault (name, .obj members) e := by
  rw [entryFault_obj_iff hname]
  by_cases hmark : ValidMark members
  · rw [readComposite_of_valid hmark, Outcome.map_eq_error_iff,
      mapM_error_iff_firstFault readField_ok_iff_valid readField_eq_error_iff]
    simp [hmark]
  · simp [readComposite_of_not_valid hmark, hmark, eq_comm]

/-! ## Listed types -/

theorem readShared_str (text : String) (index : Nat) :
    readShared (.str text, index) =
      (parse text).bind fun t =>
        if t.isComposite then .error (.sharedComposite text)
        else if t.isNullable then .error (.unsupported text)
        else .ok t :=
  rfl

theorem readShared_eq_ok_iff {item : Json × Nat} {t : TypeExpr} :
    readShared item = .ok t ↔ ∃ text, item.1 = .str text ∧ parse text = .ok t ∧
      t.isComposite = false ∧ t.isNullable = false := by
  obtain ⟨value, index⟩ := item
  cases value with
  | str text =>
    simp only [readShared_str, Outcome.bind_eq_ok_iff, Json.str.injEq, exists_eq_left']
    constructor
    · rintro ⟨u, hu, h⟩
      split at h
      · cases h
      next hc =>
      split at h
      · cases h
      next hn =>
      obtain rfl := Except.ok.inj h
      exact ⟨hu, by simpa using hc, by simpa using hn⟩
    · rintro ⟨ht, hc, hn⟩
      exact ⟨t, ht, by simp [hc, hn]⟩
  | _ =>
    refine ⟨nofun, ?_⟩
    rintro ⟨text, htext, -⟩
    cases htext

theorem readShared_ok_iff_valid (item : Json × Nat) :
    (∃ t, readShared item = .ok t) ↔ ValidItem item.1 := by
  simp only [readShared_eq_ok_iff, ValidItem]
  exact exists_comm

theorem readShared_eq_error_iff (item : Json × Nat) (e : SchemaError) :
    readShared item = .error e ↔ ItemFault item e := by
  obtain ⟨value, index⟩ := item
  cases value with
  | str text =>
    rw [readShared_str]
    cases ht : parse text with
    | error e' =>
      simp only [Except.bind, Except.error.injEq]
      constructor
      · rintro rfl
        exact .malformed ht
      · intro h
        cases h <;> simp_all
    | ok t =>
      simp only [Except.bind]
      constructor
      · intro h
        split at h
        · next hc =>
          obtain rfl := Except.error.inj h
          exact .composite ht hc
        next hc =>
        split at h
        · next hn =>
          obtain rfl := Except.error.inj h
          exact .nullable ht (by simpa using hc) hn
        · cases h
      · intro h
        cases h <;> simp_all
  | _ =>
    simp only [readShared, Except.error.injEq]
    constructor
    · rintro rfl
      exact .notString nofun
    · rintro ⟨-⟩
      rfl

/-- The listed types are those of the items, in the same order. -/
theorem parsed_of_readShared {items : List Json} {types : List TypeExpr}
    (h : items.zipIdx.mapM readShared = .ok types) :
    List.Forall₂ (fun item t => ∃ text, item = .str text ∧ parse text = .ok t) items types := by
  have hitems : List.Forall₂ (fun item t => ∃ text, item = .str text ∧ parse text = .ok t)
      (items.zipIdx.map Prod.fst) types := by
    rw [List.forall₂_map_left_iff]
    refine (Outcome.mapM_eq_ok_iff.1 h).imp fun item t ht => ?_
    obtain ⟨text, htext, hparse, -⟩ := readShared_eq_ok_iff.1 ht
    exact ⟨text, htext, hparse⟩
  rwa [List.zipIdx_map_fst] at hitems

/-! ## Members of a document -/

theorem forall_mem_zipIdx_iff {items : List Json} :
    (∀ item ∈ items.zipIdx, ValidItem item.1) ↔ ∀ item ∈ items, ValidItem item := by
  conv_rhs => rw [← List.zipIdx_map_fst 0 items]
  exact List.forall_mem_map.symm

theorem readEntry_ok_iff_valid (member : String × Json) :
    (∃ entry, readEntry member = .ok entry) ↔ ValidEntry member := by
  obtain ⟨name, value⟩ := member
  unfold readEntry ValidEntry
  split
  · cases value with
    | arr items =>
      simp only [Outcome.exists_map_eq_ok_iff, ValidList, Json.arr.injEq, exists_eq_left']
      rw [mapM_ok_iff_valid readShared_ok_iff_valid, forall_mem_zipIdx_iff]
    | _ => simp [ValidList]
  · cases value with
    | obj members =>
      simp only [Outcome.exists_map_eq_ok_iff]
      exact readComposite_ok_iff_valid members
    | _ => simp [ValidType]

theorem entryFault_shared_iff {value : Json} {e : SchemaError} :
    EntryFault (sharedKey, value) e ↔
      (∀ items, value ≠ .arr items) ∧ e = .sharedNotArray ∨
        ∃ items, value = .arr items ∧
          FirstFault (fun item => ValidItem item.1) ItemFault items.zipIdx e := by
  constructor
  · intro h
    cases h with
    | notArray hne => exact .inl ⟨hne, rfl⟩
    | item hfirst => exact .inr ⟨_, rfl, hfirst⟩
    | notObject hname | mark hname | field hname => exact absurd rfl hname
  · rintro (⟨hne, rfl⟩ | ⟨items, rfl, hfirst⟩)
    · exact .notArray hne
    · exact .item hfirst

theorem entryFault_notObject_iff {name : String} (hname : name ≠ sharedKey) {value : Json}
    (hvalue : ∀ members, value ≠ .obj members) {e : SchemaError} :
    EntryFault (name, value) e ↔ e = .descriptionNotObject name := by
  constructor
  · intro h
    cases h with
    | notArray | item => exact absurd rfl hname
    | notObject => rfl
    | mark | field => exact absurd rfl (hvalue _)
  · rintro rfl
    exact .notObject hname hvalue

theorem readEntry_eq_error_iff (member : String × Json) (e : SchemaError) :
    readEntry member = .error e ↔ EntryFault member e := by
  obtain ⟨name, value⟩ := member
  unfold readEntry
  split
  · next hname =>
    obtain rfl : name = sharedKey := hname
    rw [entryFault_shared_iff]
    cases value with
    | arr items =>
      rw [Outcome.map_eq_error_iff,
        mapM_error_iff_firstFault readShared_ok_iff_valid readShared_eq_error_iff]
      simp
    | _ => simp [eq_comm]
  · next hname =>
    cases value with
    | obj members =>
      rw [Outcome.map_eq_error_iff]
      exact readComposite_eq_error_iff hname
    | _ =>
      rw [entryFault_notObject_iff hname (by simp), Except.error.injEq]
      exact eq_comm

end Schema

end Marshal
