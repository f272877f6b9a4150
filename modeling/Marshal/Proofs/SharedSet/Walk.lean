import Mathlib.Data.List.Nodup
import Mathlib.Data.String.Basic
import Marshal.SharedSet

/-!
# What a walk along a chain does

A walk stores a first part of the chain, type by type, and ends at the rest for one of five reasons
(`walk_spec`). Each type that it stores is new in both of its spellings, which keeps the set valid:
its types stand in the order of their canonical spellings, and their C# spellings are told apart.
-/

namespace Marshal

namespace SharedSet

/-! ## One step -/

/-- The type has a shared conversion, and both of its spellings are new to the set. -/
structure Storable (set : SharedSet) (t : TypeExpr) : Prop where
  plain : t.isNullable = false
  shared : t.isComposite = false
  new_canonical : t.canonical ∉ set.canonicals
  new_csharp : t.csharp ∉ set.spellings

/-- Stores a type under its own spellings. -/
def put (set : SharedSet) (t : TypeExpr) : SharedSet :=
  set.store t.canonical t.csharp t

theorem place_perm (key : String) (t : TypeExpr) (entries : List (String × TypeExpr)) :
    (place key t entries).Perm ((key, t) :: entries) := by
  induction entries with
  | nil => exact .refl _
  | cons entry rest ih =>
    unfold place
    split
    · exact .refl _
    · exact (ih.cons entry).trans (.swap _ _ _)

theorem mem_types_put {set : SharedSet} {t u : TypeExpr} :
    u ∈ (set.put t).types ↔ u = t ∨ u ∈ set.types := by
  simp only [types, put, store, List.mem_map, mem_place]
  constructor
  · rintro ⟨entry, rfl | hmem, rfl⟩
    · exact .inl rfl
    · exact .inr ⟨entry, hmem, rfl⟩
  · rintro (rfl | ⟨entry, hmem, rfl⟩)
    · exact ⟨_, .inl rfl, rfl⟩
    · exact ⟨entry, .inr hmem, rfl⟩

/-! ## Valid sets -/

structure Valid (set : SharedSet) : Prop where
  sorted : set.canonicals.Pairwise (· < ·)
  entry : ∀ e ∈ set.entries, e.1 = e.2.canonical ∧ e.2.isNullable = false ∧ e.2.isComposite = false
  spellings_perm : set.spellings.Perm (set.types.map TypeExpr.csharp)
  distinct : (set.types.map TypeExpr.csharp).Nodup

theorem valid_empty : empty.Valid :=
  ⟨.nil, by simp [empty], .refl _, .nil⟩

theorem pairwise_place {key : String} {t : TypeExpr} {entries : List (String × TypeExpr)}
    (h : (entries.map Prod.fst).Pairwise (· < ·)) (hnew : key ∉ entries.map Prod.fst) :
    ((place key t entries).map Prod.fst).Pairwise (· < ·) := by
  induction entries with
  | nil => simp [place]
  | cons entry rest ih =>
    obtain ⟨hentry, hrest⟩ := List.pairwise_cons.1 h
    unfold place
    split
    · next hlt =>
      refine List.pairwise_cons.2 ⟨fun k hk => ?_, h⟩
      rcases List.mem_cons.1 hk with rfl | hk
      · exact hlt
      · exact hlt.trans (hentry k hk)
    · next hlt =>
      have hgt : entry.1 < key :=
        lt_of_le_of_ne (not_lt.1 hlt) fun heq => hnew (by simp [heq])
      refine List.pairwise_cons.2 ⟨fun k hk => ?_, ih hrest fun hk => hnew (by simp [hk])⟩
      have hperm := ((place_perm key t rest).map Prod.fst).mem_iff.1 hk
      rcases List.mem_cons.1 hperm with rfl | hk
      · exact hgt
      · exact hentry k hk

namespace Valid

variable {set : SharedSet}

theorem put {t : TypeExpr} (h : set.Valid) (ht : set.Storable t) : (set.put t).Valid := by
  have htypes : (set.put t).types.Perm (t :: set.types) := (place_perm _ _ _).map Prod.snd
  have hcsharp : ((set.put t).types.map TypeExpr.csharp).Perm (t.csharp :: set.spellings) :=
    (htypes.map _).trans (h.spellings_perm.symm.cons _)
  refine ⟨pairwise_place h.sorted ht.new_canonical, fun e he => ?_, hcsharp.symm, ?_⟩
  · rcases mem_place.1 he with rfl | he
    · exact ⟨rfl, ht.plain, ht.shared⟩
    · exact h.entry e he
  · refine hcsharp.nodup_iff.2 (List.nodup_cons.2 ⟨ht.new_csharp, ?_⟩)
    exact h.spellings_perm.nodup_iff.2 h.distinct

theorem canonicals_eq (h : set.Valid) : set.canonicals = set.types.map TypeExpr.canonical := by
  rw [canonicals, types, List.map_map]
  exact List.map_congr_left fun e he => (h.entry e he).1

theorem plain (h : set.Valid) {t : TypeExpr} (ht : t ∈ set.types) :
    t.isNullable = false ∧ t.isComposite = false := by
  obtain ⟨e, he, rfl⟩ := List.mem_map.1 ht
  exact (h.entry e he).2

theorem mem_canonicals (h : set.Valid) {w : String} :
    w ∈ set.canonicals ↔ ∃ t ∈ set.types, t.canonical = w := by
  rw [h.canonicals_eq, List.mem_map]

theorem mem_spellings (h : set.Valid) {w : String} :
    w ∈ set.spellings ↔ ∃ t ∈ set.types, t.csharp = w := by
  rw [h.spellings_perm.mem_iff, List.mem_map]

theorem csharp_injOn (h : set.Valid) {t u : TypeExpr} (ht : t ∈ set.types) (hu : u ∈ set.types)
    (heq : t.csharp = u.csharp) : t = u :=
  List.inj_on_of_nodup_map h.distinct ht hu heq

theorem pairwise_types (h : set.Valid) :
    set.types.Pairwise fun t u => t.canonical < u.canonical := by
  rw [← List.pairwise_map, ← h.canonicals_eq]
  exact h.sorted

end Valid

/-! ## A walk -/

/-- The types are stored one after another, each of them being storable at its turn. -/
inductive Puts : SharedSet → List TypeExpr → SharedSet → Prop where
  | nil (set : SharedSet) : Puts set [] set
  | cons {set set' : SharedSet} {t : TypeExpr} {rest : List TypeExpr} (ht : set.Storable t)
      (h : Puts (set.put t) rest set') : Puts set (t :: rest) set'

/-- Why a walk ends before the rest of a chain, and with which outcome. -/
inductive Ends (set : SharedSet) : List TypeExpr → Except SchemaError Unit → Prop where
  | done : Ends set [] (.ok ())
  | nullable {t : TypeExpr} (h : t.isNullable = true) (rest : List TypeExpr) :
      Ends set (t :: rest) (.error (.unsupported t.canonical))
  | composite {t : TypeExpr} (hp : t.isNullable = false) (h : t.isComposite = true)
      (rest : List TypeExpr) : Ends set (t :: rest) (.ok ())
  | stored {t : TypeExpr} (hp : t.isNullable = false) (hs : t.isComposite = false)
      (h : t.canonical ∈ set.canonicals) (rest : List TypeExpr) : Ends set (t :: rest) (.ok ())
  | taken {t : TypeExpr} (hp : t.isNullable = false) (hs : t.isComposite = false)
      (hnew : t.canonical ∉ set.canonicals) (h : t.csharp ∈ set.spellings)
      (rest : List TypeExpr) : Ends set (t :: rest) (.error (.unsupported t.canonical))

theorem Puts.mem_types {set set' : SharedSet} {stored : List TypeExpr} (h : Puts set stored set')
    {u : TypeExpr} : u ∈ set'.types ↔ u ∈ stored ∨ u ∈ set.types := by
  induction h with
  | nil => simp
  | cons _ _ ih => rw [ih, mem_types_put, List.mem_cons, or_left_comm, or_assoc]

theorem Puts.subset {set set' : SharedSet} {stored : List TypeExpr} (h : Puts set stored set') :
    set.types ⊆ set'.types :=
  fun _ hu => h.mem_types.2 (.inr hu)

theorem Puts.valid {set set' : SharedSet} {stored : List TypeExpr} (h : Puts set stored set')
    (hset : set.Valid) : set'.Valid := by
  induction h with
  | nil => exact hset
  | cons ht _ ih => exact ih (hset.put ht)

/-- A walk stores a first part of the chain and ends at the rest. -/
theorem walk_spec (set : SharedSet) (chain : List TypeExpr) :
    ∃ stored rest, chain = stored ++ rest ∧ Puts set stored (set.walk chain).1 ∧
      Ends (set.walk chain).1 rest (set.walk chain).2 := by
  induction chain generalizing set with
  | nil => exact ⟨[], [], rfl, .nil set, .done⟩
  | cons t rest ih =>
    rw [walk]
    split
    · next hn => exact ⟨[], t :: rest, rfl, .nil set, .nullable hn rest⟩
    next hn =>
    replace hn : t.isNullable = false := by simpa using hn
    split
    · next hc => exact ⟨[], t :: rest, rfl, .nil set, .composite hn hc rest⟩
    next hc =>
    replace hc : t.isComposite = false := by simpa using hc
    dsimp only
    split
    · next hs =>
      exact ⟨[], t :: rest, rfl, .nil set, .stored hn hc (List.contains_iff_mem.1 hs) rest⟩
    next hs =>
    replace hs : t.canonical ∉ set.canonicals := fun h => hs (List.contains_iff_mem.2 h)
    split
    · next ht =>
      exact ⟨[], t :: rest, rfl, .nil set, .taken hn hc hs (List.contains_iff_mem.1 ht) rest⟩
    next ht =>
    replace ht : t.csharp ∉ set.spellings := fun h => ht (List.contains_iff_mem.2 h)
    obtain ⟨stored, rest', rfl, hputs, hends⟩ := ih (set.put t)
    exact ⟨t :: stored, rest', rfl, .cons ⟨hn, hc, hs, ht⟩ hputs, hends⟩

theorem Valid.walk {set : SharedSet} (h : set.Valid) (chain : List TypeExpr) :
    (set.walk chain).1.Valid := by
  obtain ⟨stored, rest, -, hputs, -⟩ := walk_spec set chain
  exact hputs.valid h

theorem Valid.insert {set : SharedSet} (h : set.Valid) (t : TypeExpr) : (set.insert t).1.Valid :=
  h.walk t.chain

end SharedSet

end Marshal
