import Marshal.Proofs.Conversion.Overloads
import Marshal.Proofs.SharedSet.Insertion

/-!
# The two directions agree

The methods of both directions come from the same composites and the same shared set. Main
statement: for any schema, whatever its types are, both directions fail alike, and only while the
shared set is collected, or both succeed with overloads for the same types in the same order
(`methods_agree`).
-/

namespace Marshal

namespace Conversion

theorem sharedBody?_eq_none (direction : Direction) {t : TypeExpr} (h : t.isComposite = true) :
    sharedBody? direction t = none := by
  cases t with
  | composite b name => cases direction <;> rfl
  | _ => cases h

theorem sharedMethod_eq_error (direction : Direction) {t : TypeExpr}
    (h : t.isNullable = true ∨ t.isComposite = true) :
    sharedMethod direction t = .error (.unsupported t.canonical) := by
  unfold sharedMethod
  split
  · rfl
  · next hn => rw [sharedBody?_eq_none direction (h.resolve_left hn)]

/-- Exactly the nullable types and the composites have no shared method, in both directions. -/
theorem sharedMethod_eq_error_iff {direction : Direction} {t : TypeExpr} {e : SchemaError} :
    sharedMethod direction t = .error e ↔
      (t.isNullable = true ∨ t.isComposite = true) ∧ e = .unsupported t.canonical := by
  by_cases h : t.isNullable = true ∨ t.isComposite = true
  · simp only [sharedMethod_eq_error direction h, Except.error.injEq, h, true_and]
    exact eq_comm
  · obtain ⟨hn, hc⟩ := not_or.1 h
    obtain ⟨m, hm⟩ := exists_sharedMethod direction (by simpa using hn) (by simpa using hc)
    simp [hm, h]

end Conversion

namespace Schema

open TypeExpr Conversion

/-- The collection of the shared types stops with `e` at a type whose insertion fails, after all
that are requested earlier have been inserted. The type is listed, or it is that of a field. -/
def StopsWith (s : Schema) (e : SchemaError) : Prop :=
  ∃ before t after set, s.requested = before ++ t :: after ∧
    SharedSet.empty.insertAll before = .ok set ∧ (set.insert t).2 = .error e ∧
    (t ∈ s.shared ∨ ∃ c ∈ s.types, ∃ field ∈ c.fields, set.insert t = set.track field.type)

theorem stopsWith_of_sharedSet {s : Schema} {e : SchemaError} (h : s.sharedSet = .error e) :
    s.StopsWith e := by
  obtain ⟨before, t, after, set, hsplit, hbefore, hinsert⟩ := SharedSet.insertAll_eq_error h
  refine ⟨before, t, after, set, hsplit, hbefore, hinsert, ?_⟩
  have ht : t ∈ s.requested := by simp [hsplit]
  refine (List.mem_append.1 ht).imp_right fun ht => ?_
  obtain ⟨c, hc, ht⟩ := List.mem_flatMap.1 ht
  obtain ⟨field, hfield, rfl⟩ := List.mem_map.1 ht
  exact ⟨c, hc, field, hfield, rfl⟩

/-- Both directions fail with the same error, which comes from the collection of the shared types,
or both succeed. Then the shared types all have methods, and the methods at the same place of both
lists are the overloads for the same type. Taken by themselves, shared methods are refused to the
same types with the same error. -/
theorem methods_agree (s : Schema) :
    ((∃ e, (∀ direction, s.methods direction = .error e) ∧ s.StopsWith e) ∨
      ∃ set readers writers, s.sharedSet = .ok set ∧
        (∀ t ∈ set.types, t.isNullable = false ∧ t.isComposite = false) ∧
        s.methods .fromJson = .ok readers ∧ s.methods .toJson = .ok writers ∧
        readers.length = writers.length ∧
        List.Forall₂ (IsOverload .fromJson) (s.names ++ set.types.map csharp) readers ∧
        List.Forall₂ (IsOverload .toJson) (s.names ++ set.types.map csharp) writers) ∧
    ∀ direction t e, sharedMethod direction t = .error e ↔
      (t.isNullable = true ∨ t.isComposite = true) ∧ e = .unsupported t.canonical := by
  refine ⟨?_, fun direction t e => sharedMethod_eq_error_iff⟩
  cases hset : s.sharedSet with
  | error e =>
    exact .inl ⟨e, methods_of_sharedSet_error hset, stopsWith_of_sharedSet hset⟩
  | ok set =>
    have hvalid := (SharedSet.valid_empty.insertAll hset).1
    obtain ⟨read, hread, hreaders⟩ := methods_of_sharedSet_ok hset hvalid .fromJson
    obtain ⟨written, hwritten, hwriters⟩ := methods_of_sharedSet_ok hset hvalid .toJson
    have hreads := List.rel_append (isOverload_composites s .fromJson) (isOverload_converted hread)
    have hwrites :=
      List.rel_append (isOverload_composites s .toJson) (isOverload_converted hwritten)
    refine .inr ⟨set, _, _, rfl, fun t ht => hvalid.plain ht, hreaders, hwriters, ?_, hreads,
      hwrites⟩
    rw [← hreads.length_eq, hwrites.length_eq]

end Schema

end Marshal
