import Marshal.Conversion.Methods
import Marshal.Proofs.SharedSet.Walk

/-!
# Inserting one type after another

What is known of a set into which arbitrary types have been inserted, and of the insertion at which
a list of them fails.
-/

namespace Marshal

namespace SharedSet

variable {set set' : SharedSet} {t u : TypeExpr} {ts : List TypeExpr}

theorem mem_types_insert (h : u ∈ (set.insert t).1.types) : u ∈ t.chain ∨ u ∈ set.types := by
  obtain ⟨stored, rest, hchain, hputs, -⟩ := walk_spec set t.chain
  refine (hputs.mem_types.1 h).imp_left fun hu => ?_
  rw [hchain]
  exact List.mem_append_left rest hu

/-- The set stays valid, and holds only types on the chains of those inserted. -/
theorem Valid.insertAll (h : set.Valid) (hok : set.insertAll ts = .ok set') :
    set'.Valid ∧ ∀ u ∈ set'.types, u ∈ ts.flatMap TypeExpr.chain ∨ u ∈ set.types := by
  induction ts generalizing set with
  | nil =>
    obtain rfl := Except.ok.inj hok
    exact ⟨h, fun u hu => .inr hu⟩
  | cons t ts ih =>
    rw [SharedSet.insertAll] at hok
    split at hok
    · next mid hinsert =>
      have hmid : (set.insert t).1 = mid := congrArg Prod.fst hinsert
      obtain ⟨hvalid, htypes⟩ := ih (hmid ▸ h.insert t) hok
      refine ⟨hvalid, fun u hu => ?_⟩
      rw [List.flatMap_cons, List.mem_append]
      rcases htypes u hu with hu | hu
      · exact .inl (.inr hu)
      · exact (mem_types_insert (hmid ▸ hu)).imp_left .inl
    · cases hok

/-- A list of insertions fails at the first of them that fails. -/
theorem insertAll_eq_error {e : SchemaError} (herr : set.insertAll ts = .error e) :
    ∃ before t after mid, ts = before ++ t :: after ∧ set.insertAll before = .ok mid ∧
      (mid.insert t).2 = .error e := by
  induction ts generalizing set with
  | nil => cases herr
  | cons t ts ih =>
    rw [insertAll] at herr
    split at herr
    · next mid hinsert =>
      obtain ⟨before, u, after, last, rfl, hbefore, hu⟩ := ih herr
      refine ⟨t :: before, u, after, last, rfl, ?_, hu⟩
      rw [insertAll, hinsert]
      exact hbefore
    · next mid e' hinsert =>
      obtain rfl := Except.error.inj herr
      exact ⟨[], t, ts, set, rfl, rfl, congrArg Prod.snd hinsert⟩

end SharedSet

end Marshal
