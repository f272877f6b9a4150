import Mathlib.Data.List.Chain
import Marshal.Proofs.TypeExpr.RoundTrip

/-!
# Chains of dependencies

The chain of a type in a chain is the part of that chain from there on (`chain_eq_of_suffix`), so a
type comes only once in a chain. `needed` leaves out the composite that may end a chain.
-/

namespace Marshal

namespace TypeExpr

theorem mem_chain_self (t : TypeExpr) : t ∈ t.chain := by
  rw [chain_eq]
  exact List.mem_cons_self

theorem mem_chain_of_dependency {t u : TypeExpr} (h : u ∈ t.dependency?) : u ∈ t.chain := by
  rw [chain_eq, Option.mem_def.1 h]
  exact List.mem_cons_of_mem t (mem_chain_self u)

theorem chain_of_isComposite {t : TypeExpr} (h : t.isComposite = true) : t.chain = [t] := by
  cases t <;> first | rfl | cases h

theorem chain_eq_of_cons {t u : TypeExpr} {rest : List TypeExpr} (h : t.chain = u :: rest) :
    u.chain = u :: rest := by
  have htail := h
  rw [chain_eq] at htail
  obtain ⟨rfl, -⟩ := List.cons.inj htail
  exact h

theorem chain_eq_of_suffix {t u : TypeExpr} {before rest : List TypeExpr}
    (h : t.chain = before ++ u :: rest) : u.chain = u :: rest := by
  induction t generalizing before with
  | scalar b kind | composite b name =>
    cases before with
    | nil => exact chain_eq_of_cons h
    | cons _ before => simp [chain] at h
  | enum b name =>
    cases before with
    | nil => exact chain_eq_of_cons h
    | cons _ before =>
      have htail := (List.cons.inj h).2
      cases before with
      | nil =>
        obtain ⟨rfl, rfl⟩ := List.cons.inj htail
        rfl
      | cons _ before => simp at htail
  | array b elem ih | list b elem ih =>
    cases before with
    | nil => exact chain_eq_of_cons h
    | cons _ before => exact ih (List.cons.inj h).2
  | dictionary b key value _ ih =>
    cases before with
    | nil => exact chain_eq_of_cons h
    | cons _ before => exact ih (List.cons.inj h).2

/-- Everything on the chain of a type on a chain is on that chain. -/
theorem chain_subset_of_mem {t u : TypeExpr} (h : u ∈ t.chain) : u.chain ⊆ t.chain := by
  obtain ⟨before, rest, hsplit⟩ := List.append_of_mem h
  rw [chain_eq_of_suffix hsplit, hsplit]
  exact List.subset_append_right before (u :: rest)

/-- The chain of a type in the first part of a chain has the whole of what follows that part. -/
theorem chain_of_mem_first {t u : TypeExpr} {first rest : List TypeExpr}
    (h : t.chain = first ++ rest) (hu : u ∈ first) :
    ∃ after, u.chain = u :: (after ++ rest) ∧ u.chain <:+ t.chain := by
  obtain ⟨before, after, rfl⟩ := List.append_of_mem hu
  have hsplit : t.chain = before ++ u :: (after ++ rest) := by
    rw [h, List.append_assoc, List.cons_append]
  have hchain := chain_eq_of_suffix hsplit
  exact ⟨after, hchain, before, by rw [hchain, hsplit]⟩

/-- Every type of a chain but the first is what the type before it depends on. -/
theorem isChain_chain (t : TypeExpr) : t.chain.IsChain fun u v => u.dependency? = some v := by
  have hcons : ∀ {t elem : TypeExpr}, t.dependency? = some elem →
      elem.chain.IsChain (fun u v => u.dependency? = some v) →
      (t :: elem.chain).IsChain fun u v => u.dependency? = some v := by
    intro t elem hdependency ih
    rw [chain_eq] at ih ⊢
    exact .cons_cons hdependency ih
  induction t with
  | scalar | composite => exact .singleton _
  | enum b name => exact List.isChain_pair.2 rfl
  | array b elem ih | list b elem ih => exact hcons rfl ih
  | dictionary b key value _ ih => exact hcons rfl ih

/-- A chain ends at a scalar or at a composite. -/
theorem chain_eq_append_last (t : TypeExpr) :
    ∃ first last, t.chain = first ++ [last] ∧
      ((∃ b kind, last = scalar b kind) ∨ last.isComposite = true) := by
  induction t with
  | scalar b kind => exact ⟨[], _, rfl, .inl ⟨b, kind, rfl⟩⟩
  | composite b name => exact ⟨[], _, rfl, .inr rfl⟩
  | enum b name => exact ⟨[enum b name], _, rfl, .inl ⟨false, enumStorage, rfl⟩⟩
  | array b elem ih | list b elem ih =>
    obtain ⟨first, last, hchain, hlast⟩ := ih
    exact ⟨_ :: first, last, by rw [chain, hchain, List.cons_append], hlast⟩
  | dictionary b key value _ ih =>
    obtain ⟨first, last, hchain, hlast⟩ := ih
    exact ⟨_ :: first, last, by rw [chain, hchain, List.cons_append], hlast⟩

theorem wellFormed_of_mem_chain {t u : TypeExpr} (ht : t.WellFormed) (hu : u ∈ t.chain) :
    u.WellFormed := by
  induction t with
  | scalar | composite =>
    obtain rfl := List.mem_singleton.1 hu
    exact ht
  | enum b name =>
    rcases List.mem_cons.1 hu with rfl | hu
    · exact ht
    · obtain rfl := List.mem_singleton.1 hu
      trivial
  | array b elem ih | list b elem ih =>
    rcases List.mem_cons.1 hu with rfl | hu
    · exact ht
    · exact ih ht hu
  | dictionary b key value _ ih =>
    rcases List.mem_cons.1 hu with rfl | hu
    · exact ht
    · exact ih ht.2.1 hu

/-- The types with a shared conversion on the chain of a type. -/
def needed (t : TypeExpr) : List TypeExpr :=
  t.chain.filter fun u => !u.isComposite

theorem mem_needed {t u : TypeExpr} : u ∈ t.needed ↔ u ∈ t.chain ∧ u.isComposite = false := by
  simp [needed]

/-- Another type among the given ones has the same C# spelling. -/
def Collides (among : List TypeExpr) (t : TypeExpr) : Prop :=
  ∃ u ∈ among, u.canonical ≠ t.canonical ∧ u.csharp = t.csharp

instance (among : List TypeExpr) (t : TypeExpr) : Decidable (Collides among t) :=
  inferInstanceAs (Decidable (∃ u ∈ among, u.canonical ≠ t.canonical ∧ u.csharp = t.csharp))

theorem Collides.mono {among among' : List TypeExpr} {t : TypeExpr} (h : Collides among t)
    (hsub : among ⊆ among') : Collides among' t := by
  obtain ⟨u, hu, hne, heq⟩ := h
  exact ⟨u, hsub hu, hne, heq⟩

end TypeExpr

end Marshal
