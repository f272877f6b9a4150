import Marshal.Proofs.TypeExpr.RoundTrip
import Marshal.Schema.Reader

/-!
# Schemas that come from a document

All types of such a schema come from type strings, and the listed ones have a shared conversion.
-/

namespace Marshal

namespace Schema

/-- What is known of a schema that was read from a document. -/
structure WellFormed (s : Schema) : Prop where
  fields : ∀ c ∈ s.types, ∀ field ∈ c.fields, field.type.WellFormed
  shared : ∀ t ∈ s.shared, t.WellFormed ∧ t.isComposite = false ∧ t.isNullable = false

theorem wellFormed_empty : empty.WellFormed :=
  ⟨by simp [empty], by simp [empty]⟩

/-! ## Entries -/

theorem wellFormed_of_readField {type : String} {member : String × Json} {field : Field}
    (h : readField type member = .ok field) : field.type.WellFormed := by
  unfold readField at h
  split at h
  · obtain ⟨t, ht, rfl⟩ := Outcome.map_eq_ok_iff.1 h
    exact TypeExpr.wellFormed_of_parse ht
  · cases h

theorem wellFormed_of_readComposite {name : String} {members : List (String × Json)}
    {c : Composite} (h : readComposite name members = .ok c) :
    ∀ field ∈ c.fields, field.type.WellFormed := by
  obtain ⟨isRef, -, h⟩ := Outcome.bind_eq_ok_iff.1 h
  obtain ⟨fields, hfields, h⟩ := Outcome.bind_eq_ok_iff.1 h
  obtain rfl := Except.ok.inj h
  exact Outcome.forall_of_mapM hfields fun _ _ => wellFormed_of_readField

theorem wellFormed_of_readShared {item : Json × Nat} {t : TypeExpr}
    (h : readShared item = .ok t) :
    t.WellFormed ∧ t.isComposite = false ∧ t.isNullable = false := by
  unfold readShared at h
  split at h
  · obtain ⟨u, hu, h⟩ := Outcome.bind_eq_ok_iff.1 h
    split at h
    · cases h
    next hc =>
    split at h
    · cases h
    next hn =>
    obtain rfl := Except.ok.inj h
    exact ⟨TypeExpr.wellFormed_of_parse hu, by simpa using hc, by simpa using hn⟩
  · cases h

/-- What a top-level member says keeps the schema well-formed. -/
theorem WellFormed.addEntry {s : Schema} (h : s.WellFormed) {member : String × Json} {entry : Entry}
    (hentry : readEntry member = .ok entry) : (s.addEntry entry).WellFormed := by
  unfold readEntry at hentry
  split at hentry
  · split at hentry
    · obtain ⟨types, htypes, rfl⟩ := Outcome.map_eq_ok_iff.1 hentry
      refine ⟨h.fields, fun t ht => ?_⟩
      rcases List.mem_append.1 ht with ht | ht
      · exact h.shared t ht
      · exact Outcome.forall_of_mapM htypes (fun _ _ => wellFormed_of_readShared) t ht
    · cases hentry
  · split at hentry
    · obtain ⟨c, hc, rfl⟩ := Outcome.map_eq_ok_iff.1 hentry
      refine ⟨fun d hd => ?_, h.shared⟩
      rcases mem_insertType hd with rfl | hd
      · exact wellFormed_of_readComposite hc
      · exact h.fields d hd
    · cases hentry

/-! ## Documents -/

theorem WellFormed.foldl_addEntry {members : List (String × Json)} {entries : List Entry}
    (hentries : List.Forall₂ (fun member entry => readEntry member = .ok entry) members entries)
    {s : Schema} (h : s.WellFormed) : (entries.foldl Schema.addEntry s).WellFormed := by
  induction hentries generalizing s with
  | nil => exact h
  | cons hentry _ ih => exact ih (h.addEntry hentry)

theorem wellFormed_of_ofJson {document : Json} {s : Schema} (h : ofJson document = .ok s) :
    s.WellFormed := by
  unfold ofJson at h
  split at h
  · obtain ⟨entries, hentries, h⟩ := Outcome.bind_eq_ok_iff.1 h
    obtain rfl := Except.ok.inj h
    exact wellFormed_empty.foldl_addEntry (Outcome.mapM_eq_ok_iff.1 hentries)
  · cases h

end Schema

end Marshal
