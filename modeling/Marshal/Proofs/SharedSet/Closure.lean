import Marshal.Proofs.SharedSet.Effect
import Marshal.Proofs.SharedSet.Insertion

/-!
# The closure of the shared set

As long as no insertion fails, the set holds with every type all that its conversion needs. A walk
may therefore stop at a type that is stored already. Main statements: what the set holds after a
list of types has been inserted (`Closed.insertAll_ok`), and which type is refused if that fails
(`Closed.insertAll_error`).
-/

namespace Marshal

namespace SharedSet

open TypeExpr

/-- The type can be converted: it has no nullable mark, and it is a composite or is stored. -/
def Settled (set : SharedSet) (t : TypeExpr) : Prop :=
  t.isNullable = false ∧ (t.isComposite = true ∨ t ∈ set.types)

/-- The type and all that it depends on can be converted. -/
def Complete (set : SharedSet) (t : TypeExpr) : Prop :=
  ∀ u ∈ t.chain, set.Settled u

theorem Complete.mono {set set' : SharedSet} {t : TypeExpr} (h : set.Complete t)
    (hsub : set.types ⊆ set'.types) : set'.Complete t :=
  fun u hu => ⟨(h u hu).1, (h u hu).2.imp_right fun hmem => hsub hmem⟩

/-- The stored types are well-formed, and all that they depend on can be converted. -/
structure Closed (set : SharedSet) : Prop extends Valid set where
  wellFormed : ∀ t ∈ set.types, t.WellFormed
  complete : ∀ t ∈ set.types, set.Complete t

theorem closed_empty : empty.Closed :=
  ⟨valid_empty, by simp [empty, types], by simp [empty, types]⟩

variable {set set' : SharedSet} {t : TypeExpr} {ts : List TypeExpr}

/-- After a walk without an error the type of its root can be converted, unless the walk relied on a
stored type that cannot. If the types that cannot be converted have a type with the property `L` on
their chains, there is one on the rest of the chain. -/
theorem Effect.complete_or {root : TypeExpr} {passed : List TypeExpr} {L : TypeExpr → Prop}
    (h : set.Effect root passed set' (.ok ())) (hset' : set'.Valid) (hroot : root.WellFormed)
    (hwf : ∀ t ∈ set.types, t.WellFormed)
    (hL : ∀ t ∈ set.types, set.Complete t ∨ ∃ u ∈ t.chain, L u) :
    set'.Complete root ∨ ∃ rest, root.chain = passed ++ rest ∧ ∃ u ∈ rest, L u := by
  have hpassed : ∀ u ∈ passed, set'.Settled u := fun u hu =>
    have hmem := h.mem_types.2 (.inl hu)
    ⟨(hset'.plain hmem).1, .inr hmem⟩
  rcases h.stops with ⟨hchain, -⟩ | ⟨t, rest, hchain, hstops⟩
  · exact .inl fun u hu => hpassed u (hchain ▸ hu)
  have hsuffix := chain_eq_of_suffix hchain
  have hcomplete : set'.Complete t → set'.Complete root := by
    intro ht u hu
    rw [hchain, List.mem_append] at hu
    rcases hu with hu | hu
    · exact hpassed u hu
    · exact ht u (hsuffix ▸ hu)
  cases hstops with
  | composite hplain hcomposite =>
    refine .inl (hcomplete fun u hu => ?_)
    rw [chain_of_isComposite hcomposite, List.mem_singleton] at hu
    subst hu
    exact ⟨hplain, .inl hcomposite⟩
  | present _ _ hpresent =>
    obtain ⟨u, hu, heq⟩ := hpresent
    have ht : t.WellFormed := wellFormed_of_mem_chain hroot (by simp [hchain])
    obtain rfl := canonical_injOn (hwf u hu) ht heq
    rcases hL u hu with hu | ⟨v, hv, hleft⟩
    · exact .inl (hcomplete (hu.mono fun w hw => h.mem_types.2 (.inr hw)))
    · exact .inr ⟨u :: rest, hchain, v, hsuffix ▸ hv, hleft⟩

theorem Closed.insert_ok (h : set.Closed) (ht : t.WellFormed)
    (hok : set.insert t = (set', .ok ())) :
    set'.Closed ∧ set'.Complete t ∧ ∀ u, u ∈ set'.types ↔ u ∈ set.types ∨ u ∈ t.needed := by
  obtain ⟨passed, heffect⟩ := h.toValid.effect t
  have hvalid := h.toValid.insert t
  rw [hok] at hvalid
  rw [show set.walk t.chain = (set', .ok ()) from hok] at heffect
  obtain ⟨rest, hchain⟩ := heffect.chain
  have hpassed : ∀ v ∈ passed, v ∈ t.chain := fun v hv => hchain ▸ List.mem_append_left rest hv
  have hcomplete : set'.Complete t := by
    have hor := heffect.complete_or (L := fun _ => False) hvalid ht h.wellFormed
      fun v hv => .inl (h.complete v hv)
    simpa using hor
  refine ⟨⟨hvalid, fun v hv => ?_, fun v hv => ?_⟩, hcomplete, fun u => ⟨fun hu => ?_, ?_⟩⟩
  · rcases heffect.mem_types.1 hv with hv | hv
    · exact wellFormed_of_mem_chain ht (hpassed v hv)
    · exact h.wellFormed v hv
  · rcases heffect.mem_types.1 hv with hv | hv
    · exact fun w hw => hcomplete w (chain_subset_of_mem (hpassed v hv) hw)
    · exact (h.complete v hv).mono fun w hw => heffect.mem_types.2 (.inr hw)
  · rcases heffect.mem_types.1 hu with hmem | hmem
    · exact .inr (mem_needed.2 ⟨hpassed u hmem, (hvalid.plain hu).2⟩)
    · exact .inl hmem
  · rintro (hu | hu)
    · exact heffect.mem_types.2 (.inr hu)
    · obtain ⟨hmem, hshared⟩ := mem_needed.1 hu
      apply (hcomplete u hmem).2.resolve_left
      simp [hshared]

theorem insert_error (h : set.Valid) {e : SchemaError} (herr : (set.insert t).2 = .error e) :
    ∃ u ∈ t.chain, e = .unsupported u.canonical ∧
      (u.isNullable = true ∨
        u.isComposite = false ∧ Collides (set.types ++ t.needed) u) := by
  obtain ⟨passed, heffect⟩ := h.effect t
  rw [show (set.walk t.chain).2 = .error e from herr] at heffect
  rcases heffect.stops with ⟨-, heq, -⟩ | ⟨u, rest, hchain, hstops⟩
  · cases heq
  refine ⟨u, by simp [hchain], ?_⟩
  cases hstops with
  | nullable hn => exact ⟨rfl, .inl hn⟩
  | taken hplain hshared hnew htaken =>
    obtain ⟨v, hv, heq⟩ := htaken
    refine ⟨rfl, .inr ⟨hshared, v, ?_, ?_, heq⟩⟩
    · rcases List.mem_append.1 hv with hv | hv
      · exact List.mem_append_left _ hv
      · obtain ⟨first, hpasses⟩ := heffect.passes_of_mem hv
        exact List.mem_append_right _ (mem_needed.2 ⟨by simp [hchain, hv], hpasses.shared⟩)
    · rcases List.mem_append.1 hv with hv | hv
      · exact hnew v hv
      · exact canonical_ne_of_chain hchain v hv

/-! ## Lists of types -/

/-- After the insertions the set is closed, and it holds what it held and what the types need. -/
theorem Closed.insertAll_ok (h : set.Closed) (hts : ∀ t ∈ ts, t.WellFormed)
    (hok : set.insertAll ts = .ok set') :
    set'.Closed ∧ (∀ t ∈ ts, set'.Complete t) ∧
      ∀ u, u ∈ set'.types ↔ u ∈ set.types ∨ u ∈ ts.flatMap needed := by
  induction ts generalizing set with
  | nil =>
    obtain rfl := Except.ok.inj hok
    exact ⟨h, by simp, by simp⟩
  | cons t ts ih =>
    rw [insertAll] at hok
    split at hok
    · next mid hinsert =>
      obtain ⟨hmid, hcomplete, htypes⟩ := h.insert_ok (hts t List.mem_cons_self) hinsert
      obtain ⟨hset', hrest, htypes'⟩ := ih hmid (fun u hu => hts u (List.mem_cons_of_mem t hu)) hok
      have hsub : mid.types ⊆ set'.types := fun u hu => (htypes' u).2 (.inl hu)
      refine ⟨hset', fun u hu => ?_, fun u => ?_⟩
      · rcases List.mem_cons.1 hu with rfl | hu
        · exact hcomplete.mono hsub
        · exact hrest u hu
      · rw [htypes', htypes, List.flatMap_cons, List.mem_append, or_assoc]
    · cases hok

/-- If an insertion fails, a type on one of the chains is nullable or collides with another. -/
theorem Closed.insertAll_error (h : set.Closed) (hts : ∀ t ∈ ts, t.WellFormed) {e : SchemaError}
    (herr : set.insertAll ts = .error e) :
    ∃ u ∈ ts.flatMap chain, e = .unsupported u.canonical ∧
      (u.isNullable = true ∨
        u.isComposite = false ∧ Collides (set.types ++ ts.flatMap needed) u) := by
  obtain ⟨before, t, after, mid, rfl, hbefore, ht⟩ := insertAll_eq_error herr
  obtain ⟨hmid, -, htypes⟩ :=
    h.insertAll_ok (fun u hu => hts u (List.mem_append_left _ hu)) hbefore
  obtain ⟨u, hu, heq, hwhy⟩ := insert_error hmid.toValid ht
  refine ⟨u, by simp [hu], heq, hwhy.imp_right fun ⟨hs, hc⟩ => ⟨hs, hc.mono fun v hv => ?_⟩⟩
  simp only [List.mem_append, htypes, List.flatMap_append, List.flatMap_cons] at hv ⊢
  tauto

end SharedSet

end Marshal
