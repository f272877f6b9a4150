import Mathlib.Logic.Relation
import Marshal.Generate
import Marshal.Proofs.Schema.Documents
import Marshal.Proofs.TypeExpr.RoundTrip

/-!
# Edits without meaning

Two documents may differ in what the reader does not look at: directives other than the mark, the
value and the place of the mark, and the way in which a type is spelled. An error never quotes a
type string that can be read, so this also holds when another part of the document is at fault. Main
statement: such edits change neither the schema or the error nor what is generated, and in a
document that is read the list of shared types may stand anywhere (`ofJson_eq_of_edits`).
-/

namespace Marshal

namespace Schema

open TypeExpr

/-! ## Edits -/

/-- A directive without a meaning. -/
def IsIgnored (key : String) : Prop :=
  isDirective key = true ∧ key ≠ referenceKey

/-- The only member `key` of an object is moved to another place. -/
inductive Moved (key : String) : List (String × Json) → List (String × Json) → Prop where
  | intro {value : Json} {before after before' after' : List (String × Json)}
      (hrest : before ++ after = before' ++ after') (hkey : key ∉ (before ++ after).map Prod.fst) :
      Moved key (before ++ (key, value) :: after) (before' ++ (key, value) :: after')

/-- An edit of a declaration that leaves its meaning as it is. -/
inductive TypeEdit : List (String × Json) → List (String × Json) → Prop where
  | add {key : String} (h : IsIgnored key) (value : Json) (before after : List (String × Json)) :
      TypeEdit (before ++ after) (before ++ (key, value) :: after)
  | remove {key : String} (h : IsIgnored key) (value : Json) (before after : List (String × Json)) :
      TypeEdit (before ++ (key, value) :: after) (before ++ after)
  | change {key : String} (h : IsIgnored key) (value value' : Json)
      (before after : List (String × Json)) :
      TypeEdit (before ++ (key, value) :: after) (before ++ (key, value') :: after)
  | move {key : String} {members members' : List (String × Json)} (h : isDirective key = true)
      (hmoved : Moved key members members') : TypeEdit members members'
  | flip (b : Bool) (before after : List (String × Json)) :
      TypeEdit (before ++ (referenceKey, .bool b) :: after)
        (before ++ (referenceKey, .bool !b) :: after)
  | respell {name text text' : String} {t : TypeExpr} (hname : isDirective name = false)
      (h : parse text = .ok t) (h' : parse text' = .ok t) (before after : List (String × Json)) :
      TypeEdit (before ++ (name, .str text) :: after) (before ++ (name, .str text') :: after)

/-- The text may stand among the listed types, and then stands for `t`. -/
structure Listable (text : String) (t : TypeExpr) : Prop where
  parsed : parse text = .ok t
  shared : t.isComposite = false
  plain : t.isNullable = false

/-- An edit of a document that leaves its meaning as it is, whether or not it can be read. -/
inductive Edit : Json → Json → Prop where
  | type {name : String} {members members' : List (String × Json)} (hname : name ≠ sharedKey)
      (h : TypeEdit members members') (before after : List (String × Json)) :
      Edit (.obj (before ++ (name, .obj members) :: after))
        (.obj (before ++ (name, .obj members') :: after))
  | item {text text' : String} {t : TypeExpr} (h : Listable text t) (h' : Listable text' t)
      (first rest : List Json) (before after : List (String × Json)) :
      Edit (.obj (before ++ (sharedKey, .arr (first ++ .str text :: rest)) :: after))
        (.obj (before ++ (sharedKey, .arr (first ++ .str text' :: rest)) :: after))

/-- The list of shared types is moved to another place. -/
inductive ListMoved : Json → Json → Prop where
  | intro {members members' : List (String × Json)} (h : Moved sharedKey members members') :
      ListMoved (.obj members) (.obj members')

/-! ## Declarations -/

theorem lookup_skip {key k : String} (h : k ≠ key) (value : Json)
    (before after : List (String × Json)) :
    (before ++ (key, value) :: after).lookup k = (before ++ after).lookup k := by
  have hne : (k == key) = false := by simpa using h
  rw [List.lookup_append, List.lookup_append, List.lookup_cons, hne]

theorem fieldMembers_skip {key : String} (h : isDirective key = true) (value : Json)
    (before after : List (String × Json)) :
    fieldMembers (before ++ (key, value) :: after) = fieldMembers (before ++ after) := by
  simp [fieldMembers, h]

theorem Moved.lookup_eq {key : String} {members members' : List (String × Json)}
    (h : Moved key members members') (k : String) : members.lookup k = members'.lookup k := by
  obtain ⟨hrest, hkey⟩ := h
  by_cases hk : k = key
  · subst hk
    have hnone : ∀ rest : List (String × Json), k ∉ rest.map Prod.fst → rest.lookup k = none := by
      intro rest hrest
      rw [List.lookup_eq_none_iff]
      rintro ⟨k', value⟩ hmem
      simpa using fun heq : k = k' => hrest (heq ▸ List.mem_map_of_mem hmem)
    have hkey' := hrest ▸ hkey
    rw [List.map_append, List.mem_append, not_or] at hkey hkey'
    simp [List.lookup_append, hnone _ hkey.1, hnone _ hkey'.1]
  · rw [lookup_skip hk, lookup_skip hk, hrest]

theorem Moved.fieldMembers_eq {key : String} {members members' : List (String × Json)}
    (h : Moved key members members') (hkey : isDirective key = true) :
    fieldMembers members = fieldMembers members' := by
  obtain ⟨hrest, -⟩ := h
  rw [fieldMembers_skip hkey, fieldMembers_skip hkey, hrest]

/-- Only the mark and the fields of a declaration are read. -/
theorem readComposite_congr {name : String} {members members' : List (String × Json)}
    (hmark : readReferenceMark name members = readReferenceMark name members')
    (hfields : (fieldMembers members).mapM (readField name) =
      (fieldMembers members').mapM (readField name)) :
    readComposite name members = readComposite name members' := by
  rw [fieldMembers, fieldMembers] at hfields
  rw [readComposite, readComposite, hmark, hfields]

theorem readReferenceMark_congr {name : String} {members members' : List (String × Json)}
    (h : members.lookup referenceKey = members'.lookup referenceKey) :
    readReferenceMark name members = readReferenceMark name members' := by
  rw [readReferenceMark, readReferenceMark, h]

theorem readReferenceMark_flip (name : String) (b : Bool) (before after : List (String × Json)) :
    readReferenceMark name (before ++ (referenceKey, .bool b) :: after) =
      readReferenceMark name (before ++ (referenceKey, .bool !b) :: after) := by
  simp only [readReferenceMark, List.lookup_append, List.lookup_cons_self]
  cases before.lookup referenceKey <;> rfl

theorem isDirective_referenceKey : isDirective referenceKey = true := by
  decide +kernel

theorem TypeEdit.readComposite_eq {members members' : List (String × Json)}
    (h : TypeEdit members members') (name : String) :
    readComposite name members = readComposite name members' := by
  cases h with
  | add hkey value before after =>
    refine readComposite_congr (readReferenceMark_congr ?_) ?_
    · rw [lookup_skip hkey.2.symm]
    · rw [fieldMembers_skip hkey.1]
  | remove hkey value before after =>
    refine readComposite_congr (readReferenceMark_congr ?_) ?_
    · rw [lookup_skip hkey.2.symm]
    · rw [fieldMembers_skip hkey.1]
  | change hkey value value' before after =>
    refine readComposite_congr (readReferenceMark_congr ?_) ?_
    · rw [lookup_skip hkey.2.symm, lookup_skip hkey.2.symm]
    · rw [fieldMembers_skip hkey.1, fieldMembers_skip hkey.1]
  | move hkey hmoved =>
    refine readComposite_congr (readReferenceMark_congr (hmoved.lookup_eq _)) ?_
    rw [hmoved.fieldMembers_eq hkey]
  | flip b before after =>
    refine readComposite_congr (readReferenceMark_flip name b before after) ?_
    rw [fieldMembers_skip isDirective_referenceKey, fieldMembers_skip isDirective_referenceKey]
  | @respell field text text' t hname ht ht' before after =>
    have hne : referenceKey ≠ field := by
      rintro rfl
      simp [isDirective_referenceKey] at hname
    refine readComposite_congr (readReferenceMark_congr ?_) ?_
    · rw [lookup_skip hne, lookup_skip hne]
    · have hfield : readField name (field, .str text) = readField name (field, .str text') := by
        simp only [readField, ht, ht']
      simpa [fieldMembers, hname] using Outcome.mapM_replace hfield _ _

/-! ## Documents -/

theorem readShared_of_listable {text : String} {t : TypeExpr} (h : Listable text t) (index : Nat) :
    readShared (.str text, index) = .ok t :=
  readShared_eq_ok_iff.2 ⟨text, rfl, h.parsed, h.shared, h.plain⟩

theorem readEntry_item {text text' : String} {t : TypeExpr} (h : Listable text t)
    (h' : Listable text' t) (first rest : List Json) :
    readEntry (sharedKey, .arr (first ++ .str text :: rest)) =
      readEntry (sharedKey, .arr (first ++ .str text' :: rest)) := by
  have hitem : readShared (.str text, 0 + first.length) =
      readShared (.str text', 0 + first.length) := by
    rw [readShared_of_listable h, readShared_of_listable h']
  simp only [readEntry, if_pos, List.zipIdx_append, List.zipIdx_cons]
  rw [Outcome.mapM_replace hitem]

theorem Edit.ofJson_eq {document document' : Json} (h : Edit document document') :
    ofJson document' = ofJson document := by
  cases h with
  | type hname hedit before after =>
    rw [ofJson_obj, ofJson_obj]
    congr 1
    refine Outcome.mapM_replace ?_ before after
    simp only [readEntry, if_neg hname, hedit.readComposite_eq]
  | item hitem hitem' first rest before after =>
    rw [ofJson_obj, ofJson_obj, Outcome.mapM_replace (readEntry_item hitem' hitem first rest)]

/-! ## The place of the listed types -/

theorem listed_of_readEntry {member : String × Json} {entry : Entry}
    (h : readEntry member = .ok entry) (hname : member.1 ≠ sharedKey) : entry.listed = [] := by
  rw [readEntry, if_neg hname] at h
  split at h
  · obtain ⟨c, -, rfl⟩ := Outcome.map_eq_ok_iff.1 h
    rfl
  · cases h

theorem exists_shared_of_readEntry {value : Json} {entry : Entry}
    (h : readEntry (sharedKey, value) = .ok entry) : ∃ types, entry = .shared types := by
  rw [readEntry, if_pos rfl] at h
  split at h
  · obtain ⟨types, -, rfl⟩ := Outcome.map_eq_ok_iff.1 h
    exact ⟨types, rfl⟩
  · cases h

/-- A list of shared types, put anywhere among entries that declare types. -/
theorem foldl_addEntry_shared {first rest : List Entry}
    (h : ∀ entry ∈ first ++ rest, entry.listed = []) (types : List TypeExpr) :
    ((first ++ .shared types :: rest).foldl addEntry empty).types =
        ((first ++ rest).foldl addEntry empty).types ∧
      ((first ++ .shared types :: rest).foldl addEntry empty).shared = types := by
  have hnone : (first ++ rest).flatMap Entry.listed = [] := List.flatMap_eq_nil_iff.2 h
  rw [List.flatMap_append, List.append_eq_nil_iff] at hnone
  constructor
  · rw [types_foldl_addEntry, types_foldl_addEntry, List.filterMap_append, List.filterMap_append,
      List.filterMap_cons_none rfl]
  · rw [shared_foldl_addEntry, List.flatMap_append, List.flatMap_cons, hnone.1, hnone.2]
    simp [empty, Entry.listed]

theorem ListMoved.ofJson_ok {document document' : Json} (h : ListMoved document document')
    {s : Schema} (hs : ofJson document = .ok s) : ofJson document' = .ok s := by
  obtain ⟨⟨hrest, hkey⟩⟩ := h
  rw [ofJson_obj] at hs ⊢
  obtain ⟨entries, hentries, rfl⟩ := Outcome.map_eq_ok_iff.1 hs
  obtain ⟨first, tail, hfirst, htail, rfl⟩ := Outcome.mapM_append_eq_ok_iff.1 hentries
  obtain ⟨entry, rest, hentry, hafter, rfl⟩ := Outcome.mapM_cons_eq_ok_iff.1 htail
  obtain ⟨types, rfl⟩ := exists_shared_of_readEntry hentry
  have hothers := Outcome.mapM_append_eq_ok_iff.2 ⟨first, rest, hfirst, hafter, rfl⟩
  have hlisted : ∀ entry ∈ first ++ rest, entry.listed = [] := by
    -- The moved member is the only one of its key, so all others declare types.
    refine Outcome.forall_of_forall₂ (Outcome.mapM_eq_ok_iff.1 hothers) ?_
    exact fun member hmember entry h =>
      listed_of_readEntry h fun heq => hkey (heq ▸ List.mem_map_of_mem hmember)
  rw [hrest] at hothers
  obtain ⟨first', rest', hfirst', hrest', heq⟩ := Outcome.mapM_append_eq_ok_iff.1 hothers
  refine Outcome.map_eq_ok_iff.2 ⟨first' ++ .shared types :: rest', ?_, ?_⟩
  · exact Outcome.mapM_append_eq_ok_iff.2 ⟨first', _, hfirst',
      Outcome.mapM_cons_eq_ok_iff.2 ⟨_, _, hentry, hrest', rfl⟩, rfl⟩
  · have hold := foldl_addEntry_shared hlisted types
    have hnew := foldl_addEntry_shared (heq ▸ hlisted) types
    exact eq_of_types_of_shared (by rw [hnew.1, hold.1, heq]) (by rw [hnew.2, hold.2])

/-! ## Main statement -/

theorem generate_congr {document document' : Json} (h : ofJson document' = ofJson document)
    (direction : Direction) (options : Options) :
    Marshal.generate document' direction options = Marshal.generate document direction options := by
  rw [Marshal.generate, Marshal.generate, h]

/-- Edits without meaning change neither what is read, be it a schema or an error, nor what is
generated. In a document that is read, the list of shared types may be moved as well. The canonical
spelling of a type is one of those that may be exchanged. -/
theorem ofJson_eq_of_edits :
    (∀ document document', Relation.ReflTransGen Edit document document' →
      ofJson document' = ofJson document ∧ ∀ direction options,
        Marshal.generate document' direction options =
          Marshal.generate document direction options) ∧
    (∀ document document' s, ofJson document = .ok s →
      Relation.ReflTransGen (fun d d' => Edit d d' ∨ ListMoved d d') document document' →
      ofJson document' = .ok s ∧ ∀ direction options,
        Marshal.generate document' direction options =
          Marshal.generate document direction options) ∧
    ∀ text t, parse text = .ok t → parse t.canonical = .ok t := by
  refine ⟨fun document document' h => ?_, fun document document' s hs h => ?_, fun text t h => ?_⟩
  · have hread : ofJson document' = ofJson document := by
      induction h with
      | refl => rfl
      | tail _ hedit ih => rw [hedit.ofJson_eq, ih]
    exact ⟨hread, generate_congr hread⟩
  · have hread : ofJson document' = .ok s := by
      induction h with
      | refl => exact hs
      | tail _ hstep ih =>
        rcases hstep with hedit | hmoved
        · rw [hedit.ofJson_eq, ih]
        · exact hmoved.ofJson_ok ih
    exact ⟨hread, generate_congr (hread.trans hs.symm)⟩
  · exact parse_canonical (wellFormed_of_parse h)

/-- A declaration with a note, a mark at its end and types that are not spelled canonically. -/
def roughMembers : List (String × Json) :=
  [("__note", .str "draft"), ("rows", .str "Dictionary<int ,Car[]>"), ("__is_ref", .bool true)]

/-- The same declaration without the note, with the mark before the field. -/
def plainMembers : List (String × Json) :=
  [("__is_ref", .bool false), ("rows", .str "Dictionary<int, Car[]>")]

theorem edits_roughMembers (before after : List (String × Json)) : Relation.ReflTransGen Edit
    (.obj (before ++ ("Car", .obj roughMembers) :: after))
    (.obj (before ++ ("Car", .obj plainMembers) :: after)) := by
  have hname : "Car" ≠ sharedKey := by decide
  have hrough : parse "Dictionary<int ,Car[]>" = .ok (.dictionary false (.scalar false .int)
      (.array false (.composite false "Car"))) := by decide +kernel
  have hcanonical : parse "Dictionary<int, Car[]>" = .ok (.dictionary false (.scalar false .int)
      (.array false (.composite false "Car"))) := by decide +kernel
  have hremove : TypeEdit roughMembers _ :=
    .remove ⟨by decide +kernel, by decide⟩ (.str "draft") [] _
  have hrespell : TypeEdit [("rows", .str "Dictionary<int ,Car[]>"), ("__is_ref", .bool true)] _ :=
    .respell (by decide +kernel) hrough hcanonical [] _
  have hflip : TypeEdit [("rows", .str "Dictionary<int, Car[]>"), (referenceKey, .bool true)] _ :=
    .flip true [("rows", .str "Dictionary<int, Car[]>")] []
  have hmoved : Moved referenceKey
      ([("rows", .str "Dictionary<int, Car[]>")] ++ (referenceKey, .bool false) :: [])
      ([] ++ (referenceKey, .bool false) :: [("rows", .str "Dictionary<int, Car[]>")]) :=
    .intro rfl (by decide)
  have hmove : TypeEdit _ plainMembers := .move isDirective_referenceKey hmoved
  exact (((Relation.ReflTransGen.single (.type hname hremove before after)).tail
    (.type hname hrespell before after)).tail (.type hname hflip before after)).tail
    (.type hname hmove before after)

/-- The edits before a member at fault, and before a list that is respelled and moved to the
front. -/
theorem ofJson_eq_of_roughMembers :
    ofJson (.obj [("Car", .obj plainMembers), ("Part", .null)]) =
      ofJson (.obj [("Car", .obj roughMembers), ("Part", .null)]) ∧
    (∃ s, ofJson (.obj [("Car", .obj roughMembers), ("__slaves", .arr [.str " long"])]) = .ok s ∧
      ofJson (.obj [("__slaves", .arr [.str "long"]), ("Car", .obj plainMembers)]) = .ok s) ∧
    parse (TypeExpr.canonical (.array true (.scalar false .int))) =
      .ok (.array true (.scalar false .int)) := by
  obtain ⟨hedits, hmoves, hcanonical⟩ := ofJson_eq_of_edits
  refine ⟨(hedits _ _ (edits_roughMembers [] [("Part", .null)])).1, ?_,
    hcanonical "int [] ?" _ (by decide +kernel)⟩
  obtain ⟨s, hs⟩ : ∃ s, ofJson (.obj [("Car", .obj roughMembers),
      ("__slaves", .arr [.str " long"])]) = .ok s := Outcome.exists_eq_ok (by decide +kernel)
  have hlong : Listable " long" (.scalar false .long) := ⟨by decide +kernel, rfl, rfl⟩
  have hlong' : Listable "long" (.scalar false .long) := ⟨by decide +kernel, rfl, rfl⟩
  have hitem : Edit (.obj ([("Car", .obj plainMembers)] ++ [(sharedKey, .arr [.str " long"])]))
      (.obj ([("Car", .obj plainMembers)] ++ [(sharedKey, .arr [.str "long"])])) :=
    .item hlong hlong' [] [] _ []
  have hmoved : Moved sharedKey
      ([("Car", .obj plainMembers)] ++ (sharedKey, .arr [.str "long"]) :: [])
      ([] ++ (sharedKey, .arr [.str "long"]) :: [("Car", .obj plainMembers)]) :=
    .intro rfl (by decide)
  have hdeclaration : Relation.ReflTransGen (fun d d' => Edit d d' ∨ ListMoved d d') _ _ :=
    Relation.ReflTransGen.mono (fun _ _ => Or.inl) _ _
      (edits_roughMembers [] [("__slaves", .arr [.str " long"])])
  have hsteps := (hdeclaration.tail (.inl hitem)).tail (.inr (.intro hmoved))
  exact ⟨s, hs, (hmoves _ _ s hs hsteps).1⟩

end Schema

end Marshal
