import Marshal.Proofs.SharedSet.Walk
import Marshal.Proofs.TypeExpr.Chain

/-!
# The effect of a call on the shared set

A call walks along the chain of a type. Where it stops is decided by the set before the call and by
the types of the chain that it has passed, and these are what it adds to the set, also if it fails.
Main statement: after any calls, whatever they returned, the set is valid, and the next call has
exactly this effect (`valid_after_and_effect_call`).
-/

namespace Marshal

namespace TypeExpr

/-! ## Spellings on a chain -/

theorem lt_length_mark {n : Nat} {w : String} (h : n < w.length) (b : Bool) :
    n < (mark b w).length := by
  cases b
  · exact h
  · show n < (w ++ "?").length
    rw [String.length_append]
    exact Nat.lt_add_right _ h

theorem lt_length_between {after : String} (h : 0 < after.length) (before w : String) :
    w.length < (before ++ w ++ after).length := by
  rw [String.length_append, String.length_append]
  omega

/-- The conversion of a type converts a type with a shorter spelling. -/
theorem length_canonical_dependency {t u : TypeExpr} (h : t.dependency? = some u) :
    u.canonical.length < t.canonical.length := by
  cases t with
  | scalar | composite => cases h
  | enum b name =>
    obtain rfl := Option.some.inj h
    have hlength : (scalar false enumStorage).canonical.length < ("enum " ++ name).length := by
      rw [String.length_append]
      exact Nat.lt_add_right _ (by decide)
    exact lt_length_mark hlength b
  | array b elem =>
    obtain rfl := Option.some.inj h
    have hlength : elem.canonical.length < (elem.canonical ++ "[]").length := by
      rw [String.length_append]
      exact Nat.lt_add_of_pos_right (by decide)
    exact lt_length_mark hlength b
  | list b elem =>
    obtain rfl := Option.some.inj h
    exact lt_length_mark (lt_length_between (by decide) "List<" elem.canonical) b
  | dictionary b key value =>
    obtain rfl := Option.some.inj h
    exact lt_length_mark
      (lt_length_between (by decide) ("Dictionary<" ++ key.canonical ++ ", ") value.canonical) b

/-- The types of a chain before one of them have other canonical spellings. -/
theorem canonical_ne_of_chain {root t : TypeExpr} {first rest : List TypeExpr}
    (h : root.chain = first ++ t :: rest) : ∀ u ∈ first, u.canonical ≠ t.canonical := by
  have hlengths : root.chain.IsChain fun u v => v.canonical.length < u.canonical.length :=
    (isChain_chain root).imp fun _ _ => length_canonical_dependency
  have htrans : IsTrans TypeExpr fun u v => v.canonical.length < u.canonical.length :=
    ⟨fun _ _ _ huv hvw => hvw.trans huv⟩
  have hpairs := List.isChain_iff_pairwise.1 hlengths
  rw [h, List.pairwise_append] at hpairs
  intro u hu heq
  have hlt := hpairs.2.2 u hu t List.mem_cons_self
  rw [heq] at hlt
  exact lt_irrefl _ hlt

end TypeExpr

namespace SharedSet

open TypeExpr

/-! ## Calls -/

/-- A call that adds a type to a set. -/
inductive Call where
  | insert (t : TypeExpr)
  | track (t : TypeExpr)
  deriving Repr, DecidableEq

/-- The type that a call is given. -/
def Call.type : Call → TypeExpr
  | insert t => t
  | track t => t

/-- The type at which the walk of a call starts. -/
def Call.root : Call → TypeExpr
  | insert t => t
  | track t => t.inner

/-- The set that a call leaves, and what it returns. -/
def call (set : SharedSet) : Call → SharedSet × Except SchemaError Unit
  | .insert t => set.insert t
  | .track t => set.track t

/-- The set after calls, whatever each of them returned. -/
def after (set : SharedSet) (calls : List Call) : SharedSet :=
  calls.foldl (fun set c => (set.call c).1) set

theorem call_eq_walk (set : SharedSet) (c : Call) : set.call c = set.walk c.root.chain := by
  cases c <;> rfl

theorem after_append (set : SharedSet) (calls calls' : List Call) :
    set.after (calls ++ calls') = (set.after calls).after calls' :=
  List.foldl_append

/-! ## The effect of a walk -/

/-- A walk that has stored the types `passed` stores `t` and goes on. -/
structure Passes (set : SharedSet) (passed : List TypeExpr) (t : TypeExpr) : Prop where
  plain : t.isNullable = false
  shared : t.isComposite = false
  new_canonical : ∀ u ∈ set.types, u.canonical ≠ t.canonical
  new_csharp : ∀ u ∈ set.types ++ passed, u.csharp ≠ t.csharp

/-- A walk that has stored the types `passed` stops at `t`, and returns the given outcome. -/
inductive Stops (set : SharedSet) (passed : List TypeExpr) (t : TypeExpr) :
    Except SchemaError Unit → Prop where
  | nullable (h : t.isNullable = true) : Stops set passed t (.error (.unsupported t.canonical))
  | composite (hplain : t.isNullable = false) (h : t.isComposite = true) :
      Stops set passed t (.ok ())
  | present (hplain : t.isNullable = false) (hshared : t.isComposite = false)
      (h : ∃ u ∈ set.types, u.canonical = t.canonical) : Stops set passed t (.ok ())
  | taken (hplain : t.isNullable = false) (hshared : t.isComposite = false)
      (hnew : ∀ u ∈ set.types, u.canonical ≠ t.canonical)
      (h : ∃ u ∈ set.types ++ passed, u.csharp = t.csharp) :
      Stops set passed t (.error (.unsupported t.canonical))

/-- A walk along the chain of `root` stores the types `passed`, which are all before the first at
which it stops, leaves the set `set'` and returns `outcome`. -/
structure Effect (set : SharedSet) (root : TypeExpr) (passed : List TypeExpr) (set' : SharedSet)
    (outcome : Except SchemaError Unit) : Prop where
  passes : ∀ first t last, passed = first ++ t :: last → set.Passes first t
  /-- The walk stops after a scalar, with which the chain ends, or at the next type. -/
  stops : (root.chain = passed ∧ outcome = .ok () ∧
      ∃ first kind, passed = first ++ [scalar false kind]) ∨
    ∃ t rest, root.chain = passed ++ t :: rest ∧ set.Stops passed t outcome
  /-- What is added stands under its canonical spelling. -/
  entries : set'.entries.Perm (passed.map (fun t => (t.canonical, t)) ++ set.entries)

variable {set set' : SharedSet}

theorem Puts.entries_perm {stored : List TypeExpr} (h : Puts set stored set') :
    set'.entries.Perm (stored.map (fun t => (t.canonical, t)) ++ set.entries) := by
  induction h with
  | nil => exact .refl _
  | @cons set set' t rest ht _ ih =>
    have hplace : (set.put t).entries.Perm ((t.canonical, t) :: set.entries) := place_perm _ _ _
    exact (ih.trans (hplace.append_left _)).trans List.perm_middle

theorem Storable.passes {t : TypeExpr} (h : set.Storable t) (hset : set.Valid) :
    set.Passes [] t where
  plain := h.plain
  shared := h.shared
  new_canonical u hu heq := h.new_canonical (hset.mem_canonicals.2 ⟨u, hu, heq⟩)
  new_csharp u hu heq := by
    rw [List.append_nil] at hu
    exact h.new_csharp (hset.mem_spellings.2 ⟨u, hu, heq⟩)

/-- What passes when `t` has been stored passes before that, with `t` among the types passed. -/
theorem Passes.of_put {t u : TypeExpr} {passed : List TypeExpr}
    (h : (set.put t).Passes passed u) : set.Passes (t :: passed) u where
  plain := h.plain
  shared := h.shared
  new_canonical v hv := h.new_canonical v (mem_types_put.2 (.inr hv))
  new_csharp v hv := by
    apply h.new_csharp v
    simp only [List.mem_append, List.mem_cons, mem_types_put] at hv ⊢
    tauto

theorem Puts.passes {stored : List TypeExpr} (h : Puts set stored set') (hset : set.Valid) :
    ∀ first t last, stored = first ++ t :: last → set.Passes first t := by
  induction h with
  | nil => simp
  | @cons set set' t rest ht _ ih =>
    intro first u last hsplit
    cases first with
    | nil =>
      obtain ⟨rfl, -⟩ := List.cons.inj hsplit
      exact ht.passes hset
    | cons v first =>
      obtain ⟨rfl, hrest⟩ := List.cons.inj hsplit
      exact (ih (hset.put ht) first u last hrest).of_put

theorem Ends.eq_ok {outcome : Except SchemaError Unit} (h : set.Ends [] outcome) :
    outcome = .ok () := by
  cases h
  rfl

/-- Why a walk ends can be told from the set before it. -/
theorem stops_of_ends {root t : TypeExpr} {stored rest : List TypeExpr}
    {outcome : Except SchemaError Unit} (hset : set.Valid) (hputs : Puts set stored set')
    (hchain : root.chain = stored ++ t :: rest) (h : set'.Ends (t :: rest) outcome) :
    set.Stops stored t outcome := by
  have hvalid := hputs.valid hset
  cases h with
  | nullable h => exact .nullable h
  | composite hplain h => exact .composite hplain h
  | stored hplain hshared h =>
    obtain ⟨u, hu, heq⟩ := hvalid.mem_canonicals.1 h
    have hold : u ∈ set.types := (hputs.mem_types.1 hu).resolve_left fun hmem =>
      canonical_ne_of_chain hchain u hmem heq
    exact .present hplain hshared ⟨u, hold, heq⟩
  | taken hplain hshared hnew h =>
    obtain ⟨u, hu, heq⟩ := hvalid.mem_spellings.1 h
    refine .taken hplain hshared (fun v hv heq => hnew ?_) ⟨u, ?_, heq⟩
    · exact hvalid.mem_canonicals.2 ⟨v, hputs.subset hv, heq⟩
    · exact List.mem_append.2 (hputs.mem_types.1 hu).symm

theorem Valid.effect (h : set.Valid) (root : TypeExpr) :
    ∃ passed, set.Effect root passed (set.walk root.chain).1 (set.walk root.chain).2 := by
  obtain ⟨stored, rest, hchain, hputs, hends⟩ := walk_spec set root.chain
  refine ⟨stored, hputs.passes h, ?_, hputs.entries_perm⟩
  cases rest with
  | cons t rest => exact .inr ⟨t, rest, hchain, stops_of_ends h hputs hchain hends⟩
  | nil =>
    rw [List.append_nil] at hchain
    obtain ⟨first, last, hsplit, hlast⟩ := chain_eq_append_last root
    have hpasses := hputs.passes h first last [] (hchain ▸ hsplit)
    refine .inl ⟨hchain, hends.eq_ok, first, ?_⟩
    rcases hlast with ⟨b, kind, rfl⟩ | hcomposite
    · obtain rfl : b = false := hpasses.plain
      exact ⟨kind, hchain ▸ hsplit⟩
    · rw [hpasses.shared] at hcomposite
      cases hcomposite

namespace Effect

variable {root t : TypeExpr} {passed : List TypeExpr} {outcome : Except SchemaError Unit}

theorem chain (h : set.Effect root passed set' outcome) : ∃ rest, root.chain = passed ++ rest := by
  rcases h.stops with ⟨hchain, -⟩ | ⟨t, rest, hchain, -⟩
  · exact ⟨[], by rw [hchain, List.append_nil]⟩
  · exact ⟨t :: rest, hchain⟩

theorem mem_types (h : set.Effect root passed set' outcome) :
    t ∈ set'.types ↔ t ∈ passed ∨ t ∈ set.types := by
  have htypes := (h.entries.map Prod.snd).mem_iff (a := t)
  simpa [types, Function.comp_def] using htypes

theorem passes_of_mem (h : set.Effect root passed set' outcome) (ht : t ∈ passed) :
    ∃ first, set.Passes first t := by
  obtain ⟨first, last, hsplit⟩ := List.append_of_mem ht
  exact ⟨first, h.passes first t last hsplit⟩

end Effect

/-! ## Main statement -/

theorem Valid.call (h : set.Valid) (c : Call) : (set.call c).1.Valid := by
  rw [call_eq_walk]
  exact h.walk c.root.chain

theorem Valid.after (h : set.Valid) (calls : List Call) : (set.after calls).Valid := by
  induction calls generalizing set with
  | nil => exact h
  | cons c calls ih => exact ih (h.call c)

theorem Valid.effect_call (h : set.Valid) (c : Call) :
    ∃ passed, set.Effect c.root passed (set.call c).1 (set.call c).2 := by
  rw [call_eq_walk]
  exact h.effect c.root

/-- After any calls on an empty set, whatever they returned, the set is valid: its types are neither
nullable nor composites, they stand under their canonical spellings and in the order of these, and
the C# spellings in use are theirs, each of one type. The next call adds the types of the chain
before the first at which it stops, and the outcome says why it stops there. -/
theorem valid_after_and_effect_call (calls : List Call) (c : Call) :
    (empty.after calls).Valid ∧ ((empty.after calls).call c).1.Valid ∧
      ∃ passed, (empty.after calls).Effect c.root passed ((empty.after calls).call c).1
        ((empty.after calls).call c).2 :=
  have h := valid_empty.after calls
  ⟨h, h.call c, h.effect_call c⟩

end SharedSet

end Marshal
