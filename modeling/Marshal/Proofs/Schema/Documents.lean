import Mathlib.Data.List.Nodup
import Marshal.Proofs.Schema.Validity

/-!
# Reading whole documents

Members that declare types are collected in order, and those of the list of shared types apart from
them. Main statement: a document is read exactly if all of its members are valid, it is read as it
stands, and otherwise the error is that of the first member at fault
(`ofJson_ok_iff_valid_error_iff_firstFault`).
-/

namespace Marshal

namespace Schema

open TypeExpr

/-! ## What the members add up to -/

/-- The type that an entry declares. -/
def Entry.composite? : Entry → Option Composite
  | .type c => some c
  | .shared _ => none

/-- The types that an entry lists. -/
def Entry.listed : Entry → List TypeExpr
  | .type _ => []
  | .shared types => types

theorem types_foldl_addEntry (entries : List Entry) (s : Schema) :
    (entries.foldl addEntry s).types =
      (entries.filterMap Entry.composite?).foldl (fun types c => insertType c types) s.types := by
  induction entries generalizing s with
  | nil => rfl
  | cons entry rest ih =>
    rw [List.foldl_cons, ih]
    cases entry <;> rfl

theorem shared_foldl_addEntry (entries : List Entry) (s : Schema) :
    (entries.foldl addEntry s).shared = s.shared ++ entries.flatMap Entry.listed := by
  induction entries generalizing s with
  | nil => simp
  | cons entry rest ih =>
    rw [List.foldl_cons, ih]
    cases entry <;> simp [addEntry, addType, addShared, Entry.listed]

theorem insertType_of_new {c : Composite} {types : List Composite}
    (h : c.name ∉ types.map Composite.name) : insertType c types = types ++ [c] := by
  induction types with
  | nil => rfl
  | cons d rest ih =>
    rw [List.map_cons, List.mem_cons, not_or] at h
    rw [insertType, if_neg (Ne.symm h.1), ih h.2, List.cons_append]

/-- Types with different names all get a place at the end. -/
theorem foldl_insertType {cs types : List Composite}
    (h : ((types ++ cs).map Composite.name).Nodup) :
    cs.foldl (fun types c => insertType c types) types = types ++ cs := by
  induction cs generalizing types with
  | nil => simp
  | cons c rest ih =>
    -- The induction hypothesis is needed for the types with `c` among them.
    have hassoc : types ++ c :: rest = types ++ [c] ++ rest := by simp
    have hnew : c.name ∉ types.map Composite.name := by
      rw [hassoc, List.map_append, List.nodup_append] at h
      have happend := h.1
      rw [List.map_append, List.nodup_append] at happend
      exact fun hmem => happend.2.2 _ hmem _ (by simp) rfl
    rw [List.foldl_cons, insertType_of_new hnew, ih (hassoc ▸ h), hassoc]

section Entries

variable {members : List (String × Json)} {entries : List Entry}

/-- The members other than the list of shared types declare the types. -/
theorem declares_of_readEntry
    (h : List.Forall₂ (fun member entry => readEntry member = .ok entry) members entries) :
    List.Forall₂ DeclaresType (members.filter fun member => member.1 ≠ sharedKey)
      (entries.filterMap Entry.composite?) := by
  induction h with
  | nil => exact .nil
  | @cons member entry _ _ hentry _ ih =>
    obtain ⟨name, value⟩ := member
    unfold readEntry at hentry
    split at hentry
    · next hname =>
      rw [List.filter_cons_of_neg (by simpa using hname)]
      split at hentry
      · obtain ⟨types, -, rfl⟩ := Outcome.map_eq_ok_iff.1 hentry
        exact ih
      · cases hentry
    · next hname =>
      rw [List.filter_cons_of_pos (by simpa using hname)]
      split at hentry
      · next hvalue =>
        obtain rfl := hvalue
        obtain ⟨c, hc, rfl⟩ := Outcome.map_eq_ok_iff.1 hentry
        exact .cons (declaresType_of_readComposite hc) ih
      · cases hentry

theorem lists_of_readEntry
    (h : List.Forall₂ (fun member entry => readEntry member = .ok entry) members entries) :
    List.Forall₂ (fun item t => ∃ text, item = .str text ∧ parse text = .ok t)
      (listedItems members) (entries.flatMap Entry.listed) := by
  induction h with
  | nil => exact .nil
  | @cons member entry _ _ hentry _ ih =>
    obtain ⟨name, value⟩ := member
    unfold readEntry at hentry
    split at hentry
    · next hname =>
      split at hentry
      · next items hvalue =>
        obtain rfl := hvalue
        obtain ⟨types, htypes, rfl⟩ := Outcome.map_eq_ok_iff.1 hentry
        rw [listedItems, List.filter_cons_of_pos (by simpa using hname), List.flatMap_cons,
          List.flatMap_cons]
        exact List.rel_append (parsed_of_readShared htypes) ih
      · cases hentry
    · next hname =>
      rw [listedItems, List.filter_cons_of_neg (by simpa using hname)]
      split at hentry
      · obtain ⟨c, -, rfl⟩ := Outcome.map_eq_ok_iff.1 hentry
        exact ih
      · cases hentry

theorem map_name_of_declares {cs : List Composite} (h : List.Forall₂ DeclaresType members cs) :
    cs.map Composite.name = members.map Prod.fst := by
  induction h with
  | nil => rfl
  | cons hc _ ih => rw [List.map_cons, List.map_cons, hc.name, ih]

/-- In a document with different keys every member keeps its own place. -/
theorem describes_foldl_addEntry (hkeys : (members.map Prod.fst).Nodup)
    (h : List.Forall₂ (fun member entry => readEntry member = .ok entry) members entries) :
    Describes members (entries.foldl addEntry empty) := by
  have htypes := declares_of_readEntry h
  constructor
  · rw [types_foldl_addEntry, show empty.types = [] from rfl, foldl_insertType, List.nil_append]
    · exact htypes
    · rw [List.nil_append, map_name_of_declares htypes]
      exact hkeys.sublist (List.filter_sublist.map Prod.fst)
  · rw [shared_foldl_addEntry, show empty.shared = [] from rfl, List.nil_append]
    exact lists_of_readEntry h

end Entries

/-! ## Main statement -/

theorem ofJson_obj (members : List (String × Json)) :
    ofJson (.obj members) =
      (members.mapM readEntry).map fun entries => entries.foldl addEntry empty := by
  rw [ofJson]
  cases members.mapM readEntry <;> rfl

theorem ofJson_eq_error_iff {members : List (String × Json)} {e : SchemaError} :
    ofJson (.obj members) = .error e ↔ FirstFault ValidEntry EntryFault members e := by
  rw [ofJson_obj, Outcome.map_eq_error_iff,
    mapM_error_iff_firstFault readEntry_ok_iff_valid readEntry_eq_error_iff]

theorem exists_fault_of_not_valid {member : String × Json} (h : ¬ ValidEntry member) :
    ∃ e, EntryFault member e := by
  rw [← readEntry_ok_iff_valid] at h
  cases hentry : readEntry member with
  | ok entry => exact absurd ⟨entry, hentry⟩ h
  | error e => exact ⟨e, (readEntry_eq_error_iff member e).1 hentry⟩

/-- Only objects are read. An object is read exactly if all of its members are valid, and then the
schema is what the members say, in their order. Otherwise the error is that of the first member at
fault, and nothing that stands after this member matters. -/
theorem ofJson_ok_iff_valid_error_iff_firstFault :
    (∀ document, (∀ members, document ≠ .obj members) →
      ofJson document = .error .rootNotObject) ∧
    ∀ members : List (String × Json),
      ((∃ s, ofJson (.obj members) = .ok s) ↔ ∀ member ∈ members, ValidEntry member) ∧
      ((members.map Prod.fst).Nodup →
        ∀ s, ofJson (.obj members) = .ok s → Describes members s) ∧
      (∀ e, ofJson (.obj members) = .error e ↔ FirstFault ValidEntry EntryFault members e) ∧
      ∀ before member after after', members = before ++ member :: after →
        (∀ x ∈ before, ValidEntry x) → ¬ ValidEntry member →
        ofJson (.obj (before ++ member :: after')) = ofJson (.obj members) := by
  refine ⟨fun document h => ?_, fun members => ⟨?_, fun hkeys s hs => ?_, fun e =>
    ofJson_eq_error_iff, ?_⟩⟩
  · cases document with
    | obj members => exact absurd rfl (h members)
    | _ => rfl
  · rw [ofJson_obj, Outcome.exists_map_eq_ok_iff, mapM_ok_iff_valid readEntry_ok_iff_valid]
  · rw [ofJson_obj] at hs
    obtain ⟨entries, hentries, rfl⟩ := Outcome.map_eq_ok_iff.1 hs
    exact describes_foldl_addEntry hkeys (Outcome.mapM_eq_ok_iff.1 hentries)
  · rintro before member after after' rfl hbefore hmember
    obtain ⟨e, he⟩ := exists_fault_of_not_valid hmember
    have hfirst : ∀ rest, ofJson (.obj (before ++ member :: rest)) = .error e := fun rest =>
      ofJson_eq_error_iff.2 ⟨before, member, rest, rfl, hbefore, he⟩
    rw [hfirst, hfirst]

/-- A type with a directive and a mark among its fields, listed types in the middle, and a type
whose name begins like a directive. -/
def validMembers : List (String × Json) :=
  [("Car", .obj [("__note", .null), ("wheels", .str "int?"), ("__is_ref", .bool false)]),
    ("__slaves", .arr [.str "long", .str " long"]), ("__Part", .obj [])]

/-- A type in which a field is at fault before the mark is. -/
def badlyMarked : String × Json :=
  ("Car", .obj [("wheels", .num "4"), ("__is_ref", .null)])

theorem ofJson_of_validMembers_and_badlyMarked :
    ofJson (.arr []) = .error .rootNotObject ∧
    (∀ member ∈ validMembers, ValidEntry member) ∧
    (∃ s, ofJson (.obj validMembers) = .ok s ∧ Describes validMembers s) ∧
    ofJson (.obj [("Part", .obj []), badlyMarked, ("Car", .null)]) =
      .error (.referenceMarkNotBool "Car") ∧
    ofJson (.obj [("Part", .obj []), badlyMarked]) =
      ofJson (.obj [("Part", .obj []), badlyMarked, ("Car", .null)]) := by
  obtain ⟨hroot, hobj⟩ := ofJson_ok_iff_valid_error_iff_firstFault
  obtain ⟨s, hs⟩ : ∃ s, ofJson (.obj validMembers) = .ok s :=
    Outcome.exists_eq_ok (by decide +kernel)
  have hpart : ∀ x ∈ [("Part", Json.obj [])], ValidEntry x := by
    rw [List.forall_mem_singleton, ← readEntry_ok_iff_valid]
    exact ⟨.type ⟨"Part", false, []⟩, by rfl⟩
  have hmark : ¬ ValidMark [("wheels", .num "4"), ("__is_ref", .null)] := by
    intro h
    obtain ⟨b, hb⟩ := h .null rfl
    cases hb
  have hfault : EntryFault badlyMarked (.referenceMarkNotBool "Car") := .mark (by decide) hmark
  have hbad : ¬ ValidEntry badlyMarked := by
    rw [← readEntry_ok_iff_valid, (readEntry_eq_error_iff _ _).2 hfault]
    simp
  refine ⟨hroot (.arr []) nofun, (hobj validMembers).1.1 ⟨s, hs⟩,
    ⟨s, hs, (hobj validMembers).2.1 (by decide) s hs⟩, ?_, ?_⟩
  · exact ((hobj _).2.2.1 _).2 ⟨[("Part", .obj [])], badlyMarked, _, rfl, hpart, hfault⟩
  · exact (hobj _).2.2.2 [("Part", .obj [])] badlyMarked [("Car", .null)] [] rfl hpart hbad

end Schema

end Marshal
