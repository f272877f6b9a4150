import Mathlib.Data.List.Forall2
import Marshal.Proofs.Code.Sites
import Marshal.Proofs.Conversion.Calls

/-!
# Reading and writing mirror each other

The two methods of a composite are built apart from each other and nest their conditions
differently. They are compared by what their statements do with the JSON object `root`: the branches
that are taken if it has a key (`keyBranches`), and the assignments to its members (`memberWrites`).
Main statement: both follow the list of fields, each in its place, and reading touches a field
nowhere else (`composite_mirrors`).
-/

namespace Marshal

namespace Text

/-- The text between a given start and a given end. -/
def between? (start stop text : String) : Option String :=
  ((afterStart? start.toList text.toList).bind (beforeEnd? stop.toList)).map String.ofList

theorem between?_eq_some_iff {start stop text inner : String} :
    between? start stop text = some inner ↔ text = start ++ inner ++ stop := by
  simp only [between?, Option.map_eq_some_iff, Option.bind_eq_some_iff, afterStart?_eq_some,
    beforeEnd?_eq_some]
  constructor
  · rintro ⟨chars, ⟨_, htext, rfl⟩, rfl⟩
    apply String.toList_injective
    simp [htext]
  · rintro rfl
    exact ⟨inner.toList, ⟨inner.toList ++ stop.toList, by simp, rfl⟩, by simp⟩

theorem between?_eq_none_iff {start stop text : String} :
    between? start stop text = none ↔ ∀ inner, text ≠ start ++ inner ++ stop := by
  simp only [Option.eq_none_iff_forall_ne_some, ne_eq, between?_eq_some_iff]

end Text

namespace Conversion

open Code

/-! ## Keys in statements -/

/-- The key that a condition asks for in `root`. -/
def testedKey? (condition : String) : Option String :=
  Text.between? "root.ContainsKey(\"" "\")" condition

/-- The key of a member of `root`. -/
def memberKey? (expression : String) : Option String :=
  Text.between? "root[\"" "\"]" expression

/-- A branch that is taken if `root` has a key. -/
structure KeyBranch where
  key : String
  body : List Stmt

def keyBranch? (branch : String × List Stmt) : Option KeyBranch :=
  (testedKey? branch.1).map fun key => ⟨key, branch.2⟩

/-- The branches of a statement that test for a key. -/
def stmtKeyBranches : Stmt → List KeyBranch
  | .conditional branches _ => branches.filterMap keyBranch?
  | _ => []

/-- The branches that test for a key, in the order of the text and at every depth. -/
def keyBranches (body : List Stmt) : List KeyBranch :=
  (bodySites [] body).flatMap fun site => stmtKeyBranches site.stmt

/-- An assignment to a member of `root`, with the conditions of the branches around it. -/
structure MemberWrite where
  conditions : List String
  key : String
  value : String

def memberWrite? (site : Site) : Option MemberWrite :=
  match site.stmt with
  | .assign left right => (memberKey? left).map fun key => ⟨site.conditions, key, right⟩
  | _ => none

/-- The assignments to members of `root`, in the order of the text and at every depth. -/
def memberWrites (body : List Stmt) : List MemberWrite :=
  (bodySites [] body).filterMap memberWrite?

/-- The statement can change a field of the value. It assigns to the field, or evaluates an
expression that may pass the field by reference. -/
def MayChange (stmt : Stmt) : Prop :=
  (∃ name value, stmt = .assign ("val." ++ name) value) ∨ ∃ text, stmt = .expr text

/-! ## What the methods of a composite are to do -/

/-- The steps in which the field `name` is read: from its member of `root` at once, as a null, or
through the variable `temp`. -/
inductive ReadStep (name temp : String) : Stmt → Prop where
  | direct : ReadStep name temp
      (.expr ("root[\"" ++ name ++ "\"].FromJSON(ref val." ++ name ++ ")"))
  | null : ReadStep name temp (.assign ("val." ++ name) "null")
  | convert : ReadStep name temp
      (.expr ("root[\"" ++ name ++ "\"].FromJSON(ref " ++ temp ++ ")"))
  | store : ReadStep name temp (.assign ("val." ++ name) temp)

/-- The body reads the field `name` from its member of `root` at once. -/
def ReadsDirectly (name : String) (body : List Stmt) : Prop :=
  body = [.expr ("root[\"" ++ name ++ "\"].FromJSON(ref val." ++ name ++ ")")]

/-- The body sets the field `name` to null if its member of `root` is, and reads it otherwise into
the new variable `temp` of the type `inner`, which it then stores. -/
def ReadsNullable (name inner temp : String) (body : List Stmt) : Prop :=
  body = [.conditional
    [("root[\"" ++ name ++ "\"].Null.IsSome()", [.assign ("val." ++ name) "null"])]
    (some [.declare inner temp none (some ("default(" ++ inner ++ ")")),
      .expr ("root[\"" ++ name ++ "\"].FromJSON(ref " ++ temp ++ ")"),
      .assign ("val." ++ name) temp])]

/-- The branch reads the field, which is nullable exactly if the branch can set it to null. -/
structure ReadsField (temp : String) (field : Field) (branch : KeyBranch) : Prop where
  key : branch.key = field.name
  nullable : field.type.isNullable = true ↔
    ReadsNullable field.name field.type.inner.csharp temp branch.body
  plain : field.type.isNullable = false ↔ ReadsDirectly field.name branch.body

/-- Whatever can change a field in the branch is a step of reading this one. -/
def SetsOnly (temp : String) (field : Field) (branch : KeyBranch) : Prop :=
  ∀ site ∈ bodySites [] branch.body, MayChange site.stmt → ReadStep field.name temp site.stmt

/-- The assignment writes the field, which is nullable exactly if the assignment is guarded against
null. The conversion is called on the field, or on the `Value` of a nullable one. -/
structure WritesField (field : Field) (write : MemberWrite) : Prop where
  key : write.key = field.name
  nullable : field.type.isNullable = true ↔
    write.conditions = ["val." ++ field.name ++ " != null"]
  plain : field.type.isNullable = false ↔ write.conditions = []
  value : write.value = "val." ++ field.name ++ ".ToJSON()" ∨
    field.type.isNullable = true ∧ write.value = "val." ++ field.name ++ ".Value.ToJSON()"

/-- The body starts with the allocation of a missing object of the type `name`. -/
def AllocatesFirst (name : String) (body : List Stmt) : Prop :=
  ∃ rest, body = .conditional [("val == null", [.assign "val" ("new " ++ name ++ "()")])] none
    :: rest

/-- The body starts with the return of the JSON null for a missing object. -/
def ReturnsNullFirst (body : List Stmt) : Prop :=
  ∃ rest, body = .conditional [("val == null", [.ret (some "JSONType.Make()")])] none :: rest

/-! ## Reading -/

theorem keyBranches_append (body rest : List Stmt) :
    keyBranches (body ++ rest) = keyBranches body ++ keyBranches rest := by
  simp only [keyBranches, bodySites_append, List.flatMap_append]

theorem keyBranches_flatMap {α : Type} (items : List α) (f : α → List Stmt) :
    keyBranches (items.flatMap f) = items.flatMap fun item => keyBranches (f item) := by
  simp only [keyBranches, bodySites_flatMap, List.flatMap_assoc]

theorem testedKey?_containsKey (key : String) :
    testedKey? ("root.ContainsKey(\"" ++ key ++ "\")") = some key := by
  rw [testedKey?, Text.between?_eq_some_iff]

theorem testedKey?_rootMember (name rest : String) :
    testedKey? (rootMember name ++ rest) = none := by
  rw [testedKey?, Text.between?_eq_none_iff]
  intro inner h
  have hchars := congrArg String.toList h
  simp [rootMember] at hchars

/-- The branch for the key of a field. -/
def fieldBranch (field : Field) : KeyBranch :=
  ⟨field.name, [if field.type.isNullable then Read.nullableField field else Read.plainField field]⟩

theorem keyBranches_readField (field : Field) :
    keyBranches [Read.readField field, .blank] = [fieldBranch field] := by
  have htest := testedKey?_containsKey field.name
  have hnull := testedKey?_rootMember field.name ".Null.IsSome()"
  unfold Read.readField fieldBranch
  split <;> simp [keyBranches, bodySites, stmtKeyBranches, keyBranch?, Stmt.when, htest,
    Read.nullableField, Read.plainField, Read.defaultValue, Read.call, Stmt.define, hnull]

theorem keyBranches_read (c : Composite) :
    keyBranches (Read.compositeBody c) = c.fields.map fieldBranch := by
  have hstart : keyBranches (if c.isRef then Read.allocateIfNull c.name else []) = [] := by
    have hnull : testedKey? "val == null" = none := by decide +kernel
    split <;> simp [keyBranches, bodySites, stmtKeyBranches, keyBranch?, Read.allocateIfNull,
      Stmt.when, hnull]
  have hobject : testedKey? "type.Obj.IsNone()" = none := by decide +kernel
  rw [Read.compositeBody, keyBranches_append, keyBranches_append, hstart, keyBranches_flatMap,
    List.map_eq_flatMap]
  simp only [keyBranches_readField]
  simp [keyBranches, bodySites, stmtKeyBranches, keyBranch?, Stmt.when, Stmt.define, hobject]

/-- The text of the call that reads a member of `root`. -/
theorem call_rootMember (key target : String) :
    Read.call (rootMember key) target =
      .expr ("root[\"" ++ key ++ "\"].FromJSON(ref " ++ target ++ ")") := by
  rw [Read.call, Stmt.expr.injEq]
  apply String.toList_injective
  simp [rootMember, Read.methodName]

theorem call_valueField (key name : String) :
    Read.call (rootMember key) (valueField name) =
      .expr ("root[\"" ++ key ++ "\"].FromJSON(ref val." ++ name ++ ")") := by
  rw [call_rootMember, Stmt.expr.injEq]
  apply String.toList_injective
  simp [valueField]

theorem readsDirectly_plainField (field : Field) :
    ReadsDirectly field.name [Read.plainField field] := by
  rw [ReadsDirectly, Read.plainField, call_valueField]

theorem readsNullable_nullableField (field : Field) :
    ReadsNullable field.name field.type.inner.csharp "actual" [Read.nullableField field] := by
  have hnull : rootMember field.name ++ ".Null.IsSome()"
      = "root[\"" ++ field.name ++ "\"].Null.IsSome()" := by
    apply String.toList_injective
    simp [rootMember]
  rw [ReadsNullable, Read.nullableField, call_rootMember, hnull, Read.defaultValue, Stmt.define,
    valueField]

theorem readsField_fieldBranch (field : Field) :
    ReadsField "actual" field (fieldBranch field) := by
  have hdirect := readsDirectly_plainField field
  have hnullable := readsNullable_nullableField field
  cases h : field.type.isNullable with
  | true =>
    refine ⟨rfl, ?_, ?_⟩
    · simpa [h, fieldBranch] using hnullable
    · simp [h, fieldBranch, ReadsDirectly, Read.nullableField]
  | false =>
    refine ⟨rfl, ?_, ?_⟩
    · simp [h, fieldBranch, ReadsNullable, Read.plainField, Read.call]
    · simpa [h, fieldBranch] using hdirect

/-- Whatever can change a field in the branch for a field is a step of reading that field. -/
theorem readStep_of_mem_fieldBranch {field : Field} {around : List String} {site : Site}
    (hsite : site ∈ bodySites around (fieldBranch field).body) (hchange : MayChange site.stmt) :
    around ⊆ site.conditions ∧ ReadStep field.name "actual" site.stmt := by
  unfold fieldBranch at hsite
  dsimp only at hsite
  split at hsite
  · simp only [Read.nullableField, Read.defaultValue, Stmt.define, call_rootMember, valueField,
      bodySites, Stmt.sites, branchSites, otherwiseSites, List.append_nil, List.nil_append,
      List.cons_append, List.mem_cons, List.not_mem_nil, or_false] at hsite
    rcases hsite with rfl | rfl | rfl | rfl | rfl
    · simp [MayChange] at hchange
    · exact ⟨List.subset_cons_self _ _, .null⟩
    · simp [MayChange] at hchange
    · exact ⟨List.Subset.refl _, .convert⟩
    · exact ⟨List.Subset.refl _, .store⟩
  · simp only [Read.plainField, call_valueField, bodySites, Stmt.sites, List.append_nil,
      List.mem_cons, List.not_mem_nil, or_false] at hsite
    subst hsite
    exact ⟨List.Subset.refl _, .direct⟩

theorem bodySites_readField (field : Field) :
    bodySites [] [Read.readField field, .blank] =
      ⟨[], Read.readField field⟩
        :: (bodySites ["root.ContainsKey(\"" ++ field.name ++ "\")"] (fieldBranch field).body
          ++ [⟨[], .blank⟩]) := by
  simp [bodySites, Read.readField, Stmt.when, fieldBranch]

/-- Whatever can change a field when a composite is read is a step of reading some field, and stands
in the branch for its key. -/
theorem readStep_of_mem_readComposite {c : Composite} {site : Site}
    (hsite : site ∈ bodySites [] (Read.compositeBody c)) (hchange : MayChange site.stmt) :
    ∃ field ∈ c.fields, "root.ContainsKey(\"" ++ field.name ++ "\")" ∈ site.conditions ∧
      ReadStep field.name "actual" site.stmt := by
  have hval : ∀ name : String, "val" ≠ "val." ++ name := by
    intro name h
    have hchars := congrArg String.toList h
    simp at hchars
  rw [Read.compositeBody, bodySites_append, bodySites_append, bodySites_flatMap, List.mem_append,
    List.mem_append, List.mem_flatMap] at hsite
  rcases hsite with (hsite | hsite) | ⟨field, hfield, hsite⟩
  · -- The allocation assigns to the value as a whole.
    split at hsite
    · simp only [Read.allocateIfNull, Stmt.when, bodySites, Stmt.sites, branchSites, otherwiseSites,
        List.append_nil, List.cons_append, List.nil_append, List.mem_cons, List.not_mem_nil,
        or_false] at hsite
      rcases hsite with rfl | rfl | rfl <;> simp [MayChange, hval] at hchange
    · simp [bodySites] at hsite
  · simp only [Stmt.when, Stmt.define, bodySites, Stmt.sites, branchSites, otherwiseSites,
      List.append_nil, List.cons_append, List.nil_append, List.mem_cons, List.not_mem_nil,
      or_false] at hsite
    rcases hsite with rfl | rfl | rfl | rfl | rfl <;> simp [MayChange] at hchange
  · rw [bodySites_readField, List.mem_cons, List.mem_append, List.mem_singleton] at hsite
    rcases hsite with rfl | hsite | rfl
    · simp [MayChange, Read.readField, Stmt.when] at hchange
    · obtain ⟨haround, hstep⟩ := readStep_of_mem_fieldBranch hsite hchange
      exact ⟨field, hfield, haround (List.mem_singleton_self _), hstep⟩
    · simp [MayChange] at hchange

/-! ## Writing -/

theorem memberWrites_append (body rest : List Stmt) :
    memberWrites (body ++ rest) = memberWrites body ++ memberWrites rest := by
  simp only [memberWrites, bodySites_append, List.filterMap_append]

theorem memberWrites_flatMap {α : Type} (items : List α) (f : α → List Stmt) :
    memberWrites (items.flatMap f) = items.flatMap fun item => memberWrites (f item) := by
  simp only [memberWrites, bodySites_flatMap, List.filterMap_flatMap]

theorem memberKey?_rootMember (key : String) : memberKey? (rootMember key) = some key := by
  rw [memberKey?, Text.between?_eq_some_iff, rootMember]

/-- The assignment for the key of a field. -/
def fieldWrite (s : Schema) (field : Field) : MemberWrite :=
  if field.type.isNullable then
    ⟨[valueField field.name ++ " != null"], field.name, Write.call (Write.presentValue s field)⟩
  else ⟨[], field.name, Write.call (valueField field.name)⟩

theorem memberWrites_writeField (s : Schema) (field : Field) :
    memberWrites [Write.writeField s field] = [fieldWrite s field] := by
  unfold Write.writeField fieldWrite
  split <;> simp [memberWrites, bodySites, List.filterMap_cons, memberWrite?, Stmt.when,
    memberKey?_rootMember]

theorem memberWrites_writeComposite (s : Schema) (c : Composite) :
    memberWrites (Write.compositeBody s c) = c.fields.map (fieldWrite s) := by
  have hstart : memberWrites (if c.isRef then Write.nullGuard else []) = [] := by
    split <;> simp [memberWrites, bodySites, memberWrite?, Write.nullGuard, Stmt.when]
  rw [Write.compositeBody, List.map_eq_flatMap, List.map_eq_flatMap, memberWrites_append,
    memberWrites_append, memberWrites_append, memberWrites_flatMap, hstart]
  simp only [memberWrites_writeField]
  simp [memberWrites, bodySites, List.filterMap_cons, memberWrite?, Stmt.construct]

theorem call_eq (source : String) : Write.call source = source ++ ".ToJSON()" := by
  apply String.toList_injective
  simp [Write.call, Write.methodName]

theorem writesField_fieldWrite (s : Schema) (field : Field) :
    WritesField field (fieldWrite s field) := by
  cases h : field.type.isNullable with
  | true =>
    constructor
    · simp [fieldWrite, h]
    · simp [fieldWrite, h, valueField]
    · simp [fieldWrite, h]
    · have hvalue : Write.presentValue s field = "val." ++ field.name ∨
          Write.presentValue s field = "val." ++ field.name ++ ".Value" := by
        unfold Write.presentValue
        split
        · exact .inr rfl
        · exact .inl rfl
      rcases hvalue with hvalue | hvalue <;>
        simp [fieldWrite, h, call_eq, hvalue, String.append_assoc]
  | false =>
    constructor
    · simp [fieldWrite, h]
    · simp [fieldWrite, h]
    · simp [fieldWrite, h]
    · simp [fieldWrite, h, call_eq, valueField]

/-! ## Missing objects -/

theorem allocatesFirst_read (c : Composite) :
    c.isRef = true ↔ AllocatesFirst c.name (Read.compositeBody c) := by
  unfold AllocatesFirst Read.compositeBody
  split <;> simp [Read.allocateIfNull, Stmt.when, *]

theorem returnsNullFirst_write (s : Schema) (c : Composite) :
    c.isRef = true ↔ ReturnsNullFirst (Write.compositeBody s c) := by
  have hmake : Write.make "" = "JSONType.Make()" := by decide
  unfold ReturnsNullFirst Write.compositeBody
  split <;> simp [Write.nullGuard, Stmt.when, Stmt.construct, *]

/-- The body that reads a composite declares no variable but `root` outside of branches. -/
theorem declared_read (c : Composite) :
    (Read.compositeBody c).filterMap Stmt.declared? = ["root"] := by
  have hstart :
      (if c.isRef then Read.allocateIfNull c.name else []).filterMap Stmt.declared? = [] := by
    split <;> simp [Read.allocateIfNull, Stmt.when]
  have hfields : (c.fields.flatMap fun field => [Read.readField field, .blank]).filterMap
      Stmt.declared? = [] := by
    simp [List.filterMap_flatMap, List.filterMap_cons, Read.readField, Stmt.when]
  rw [Read.compositeBody, List.filterMap_append, List.filterMap_append, hstart, hfields]
  simp [List.filterMap_cons, Stmt.when, Stmt.define]

/-! ## The two methods -/

/-- The bodies `reader` and `writer` of the two methods of a composite mirror each other. -/
structure Mirrors (c : Composite) (reader writer : List Stmt) : Prop where
  /-- Reading asks for the keys in the order of the fields. -/
  tested : (keyBranches reader).map KeyBranch.key = c.fields.map Field.name
  /-- Writing sets the keys in the order of the fields. -/
  written : (memberWrites writer).map MemberWrite.key = c.fields.map Field.name
  reads : List.Forall₂ (ReadsField "actual") c.fields (keyBranches reader)
  writes : List.Forall₂ WritesField c.fields (memberWrites writer)
  /-- Whatever can change a field reads some field from its own member, where there is one. -/
  guarded : ∀ site ∈ bodySites [] reader, MayChange site.stmt →
    ∃ field ∈ c.fields, "root.ContainsKey(\"" ++ field.name ++ "\")" ∈ site.conditions ∧
      ReadStep field.name "actual" site.stmt
  /-- The branch for the key of a field changes this field and no other. -/
  sets : List.Forall₂ (SetsOnly "actual") c.fields (keyBranches reader)
  /-- The variable that nullable fields are read into is no parameter of the method and no variable
  of the enclosing block. -/
  fresh : "actual" ∉ "type" :: "val" :: reader.filterMap Stmt.declared?
  allocates : c.isRef = true ↔ AllocatesFirst c.name reader
  returnsNull : c.isRef = true ↔ ReturnsNullFirst writer

/-- The methods of every composite mirror each other, whatever its fields are. -/
theorem composite_mirrors (s : Schema) (c : Composite) :
    Mirrors c (compositeMethod .fromJson s c).body (compositeMethod .toJson s c).body := by
  have hreads : List.Forall₂ (ReadsField "actual") c.fields
      (keyBranches (Read.compositeBody c)) := by
    rw [keyBranches_read, List.forall₂_map_right_iff, List.forall₂_same]
    exact fun field _ => readsField_fieldBranch field
  have hwrites : List.Forall₂ WritesField c.fields (memberWrites (Write.compositeBody s c)) := by
    rw [memberWrites_writeComposite, List.forall₂_map_right_iff, List.forall₂_same]
    exact fun field _ => writesField_fieldWrite s field
  constructor
  case tested =>
    change (keyBranches (Read.compositeBody c)).map KeyBranch.key = _
    rw [keyBranches_read, List.map_map]
    exact List.map_congr_left fun field _ => (readsField_fieldBranch field).key
  case written =>
    change (memberWrites (Write.compositeBody s c)).map MemberWrite.key = _
    rw [memberWrites_writeComposite, List.map_map]
    exact List.map_congr_left fun field _ => (writesField_fieldWrite s field).key
  case reads => exact hreads
  case writes => exact hwrites
  case guarded => exact fun site hsite => readStep_of_mem_readComposite hsite
  case sets =>
    change List.Forall₂ (SetsOnly "actual") c.fields (keyBranches (Read.compositeBody c))
    rw [keyBranches_read, List.forall₂_map_right_iff, List.forall₂_same]
    exact fun field _ site hsite hchange => (readStep_of_mem_fieldBranch hsite hchange).2
  case fresh =>
    have hdeclared : (compositeMethod .fromJson s c).body.filterMap Stmt.declared? = ["root"] :=
      declared_read c
    rw [hdeclared]
    decide
  case allocates => exact allocatesFirst_read c
  case returnsNull => exact returnsNullFirst_write s c

/-- A reference type with a plain field and a nullable one. -/
def chainLink : Composite :=
  ⟨"Link", true, [⟨"id", .scalar false .int⟩, ⟨"next", .composite true "Link"⟩]⟩

/-- The methods of a link follow its two fields, and set nothing else. -/
theorem chainLink_mirrors :
    let reader := (compositeMethod .fromJson { types := [chainLink] } chainLink).body
    let writer := (compositeMethod .toJson { types := [chainLink] } chainLink).body
    (keyBranches reader).map KeyBranch.key = ["id", "next"] ∧
      (memberWrites writer).map MemberWrite.key = ["id", "next"] ∧
      AllocatesFirst "Link" reader ∧ ReturnsNullFirst writer ∧
      List.Forall₂ (SetsOnly "actual") chainLink.fields (keyBranches reader) ∧
      ∀ site ∈ bodySites [] reader, MayChange site.stmt → ∃ field ∈ chainLink.fields,
        "root.ContainsKey(\"" ++ field.name ++ "\")" ∈ site.conditions ∧
          ReadStep field.name "actual" site.stmt :=
  have h := composite_mirrors { types := [chainLink] } chainLink
  ⟨h.tested, h.written, h.allocates.1 rfl, h.returnsNull.1 rfl, h.sets, h.guarded⟩

end Conversion

end Marshal
