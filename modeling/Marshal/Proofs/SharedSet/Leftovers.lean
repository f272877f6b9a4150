import Marshal.Proofs.SharedSet.Closure

/-!
# What failed calls leave behind

A walk stores a type before it looks at what the type depends on. A call that fails therefore leaves
the first types of its chain in the set, and each of them needs a type that can never be stored
(`Blocked`). Later calls take such a type for complete. Main statement: a call keeps its contract
exactly if it fails or no type of its chain was left by an earlier call that failed, and a call that
failed succeeds at once when it is repeated, if it has left anything (`keepsContract_iff`).
-/

namespace Marshal

namespace SharedSet

open TypeExpr

/-- The type that the call is given comes from a type string. -/
def Call.Parsed (c : Call) : Prop :=
  ∃ text, parse text = .ok c.type

/-- If the call returns no error, all that its type needs is stored. A type that needs a nullable
one is refused. -/
structure KeepsContract (set : SharedSet) (c : Call) : Prop where
  complete : (set.call c).2 = .ok () → (set.call c).1.Complete c.root
  refused : (∃ t ∈ c.root.chain, t.isNullable = true) →
    ∃ text, (set.call c).2 = .error (.unsupported text)

/-- The type was stored by one of the calls on an empty set, and that call failed. -/
def LeftBy (calls : List Call) (t : TypeExpr) : Prop :=
  ∃ before c later e, calls = before ++ c :: later ∧ ((empty.after before).call c).2 = .error e ∧
    t ∈ ((empty.after before).call c).1.types ∧ t ∉ (empty.after before).types

theorem Call.Parsed.wellFormed {c : Call} (h : c.Parsed) : c.root.WellFormed := by
  obtain ⟨text, ht⟩ := h
  have hwf := wellFormed_of_parse ht
  cases c with
  | insert t => exact hwf
  | track t => exact (wellFormed_withNullable false t).2 hwf

theorem LeftBy.append {calls : List Call} {t : TypeExpr} (h : LeftBy calls t)
    (calls' : List Call) : LeftBy (calls ++ calls') t := by
  obtain ⟨before, c, later, e, rfl, hfails⟩ := h
  exact ⟨before, c, later ++ calls', e, by simp, hfails⟩

/-! ## Types that cannot be stored -/

/-- The type cannot be stored any more: it is nullable, or its C# spelling is that of another. -/
def Blocked (set : SharedSet) (t : TypeExpr) : Prop :=
  t.isNullable = true ∨
    t.isComposite = false ∧ t ∉ set.types ∧ ∃ u ∈ set.types, u.csharp = t.csharp

variable {set set' : SharedSet} {root t : TypeExpr} {passed : List TypeExpr}
  {outcome : Except SchemaError Unit}

theorem Blocked.not_settled (h : set.Blocked t) : ¬ set.Settled t := by
  rintro ⟨hplain, hsettled⟩
  rcases h with hnullable | ⟨hshared, hnew, -⟩
  · rw [hplain] at hnullable
    cases hnullable
  · rcases hsettled with hcomposite | hmem
    · rw [hshared] at hcomposite
      cases hcomposite
    · exact hnew hmem

theorem Blocked.of_effect (h : set.Blocked t) (heffect : set.Effect root passed set' outcome) :
    set'.Blocked t := by
  refine h.imp_right fun ⟨hshared, hnew, u, hu, heq⟩ => ⟨hshared, fun ht => ?_, u, ?_, heq⟩
  · rcases heffect.mem_types.1 ht with ht | ht
    · obtain ⟨first, hpasses⟩ := heffect.passes_of_mem ht
      exact hpasses.new_csharp u (List.mem_append_left first hu) heq
    · exact hnew ht
  · exact heffect.mem_types.2 (.inr hu)

theorem Blocked.after (h : set.Blocked t) (hset : set.Valid) (calls : List Call) :
    (set.after calls).Blocked t := by
  induction calls generalizing set with
  | nil => exact h
  | cons c calls ih =>
    obtain ⟨passed, heffect⟩ := hset.effect_call c
    exact ih (h.of_effect heffect) (hset.call c)

/-- A walk that fails stops at a type that cannot be stored. -/
theorem Effect.blocked {e : SchemaError} (h : set.Effect root passed set' (.error e)) :
    ∃ t rest, root.chain = passed ++ t :: rest ∧ set'.Blocked t ∧ e = .unsupported t.canonical := by
  rcases h.stops with ⟨-, heq, -⟩ | ⟨t, rest, hchain, hstops⟩
  · cases heq
  refine ⟨t, rest, hchain, ?_⟩
  cases hstops with
  | nullable hnullable => exact ⟨.inl hnullable, rfl⟩
  | taken hplain hshared hnew htaken =>
    obtain ⟨u, hu, heq⟩ := htaken
    refine ⟨.inr ⟨hshared, fun ht => ?_, u, ?_, heq⟩, rfl⟩
    · rcases h.mem_types.1 ht with ht | ht
      · exact canonical_ne_of_chain hchain t ht rfl
      · exact hnew t ht rfl
    · exact h.mem_types.2 (List.mem_append.1 hu).symm

/-- What a failed call has left needs a type that cannot be stored, now and after any calls. -/
theorem LeftBy.blocked {calls : List Call} (h : LeftBy calls t) :
    ∃ u ∈ t.chain, (empty.after calls).Blocked u := by
  obtain ⟨before, c, later, e, rfl, herr, hmem, hnew⟩ := h
  have hbefore := valid_empty.after before
  obtain ⟨passed, heffect⟩ := hbefore.effect_call c
  have hpassed : t ∈ passed := (heffect.mem_types.1 hmem).resolve_right hnew
  rw [herr] at heffect
  obtain ⟨u, rest, hchain, hblocked, -⟩ := heffect.blocked
  obtain ⟨next, hrest, -⟩ := chain_of_mem_first hchain hpassed
  refine ⟨u, by simp [hrest], ?_⟩
  rw [after_append]
  exact hblocked.after (hbefore.call c) later

/-! ## Stored types -/

/-- Every stored type can be converted, or needs a type that a failed call has left. -/
structure Accounted (calls : List Call) (set : SharedSet) : Prop where
  wellFormed : ∀ t ∈ set.types, t.WellFormed
  complete_or_left : ∀ t ∈ set.types, set.Complete t ∨ ∃ u ∈ t.chain, LeftBy calls u

theorem Accounted.call {calls : List Call} (h : Accounted calls (empty.after calls)) {c : Call}
    (hc : c.root.WellFormed) :
    Accounted (calls ++ [c]) ((empty.after calls).call c).1 := by
  have hvalid := valid_empty.after calls
  obtain ⟨passed, heffect⟩ := hvalid.effect_call c
  obtain ⟨rest, hchain⟩ := heffect.chain
  have hpassed : ∀ t ∈ passed, t ∈ c.root.chain := fun t ht =>
    hchain ▸ List.mem_append_left rest ht
  refine ⟨fun t ht => ?_, fun t ht => ?_⟩
  · rcases heffect.mem_types.1 ht with ht | ht
    · exact wellFormed_of_mem_chain hc (hpassed t ht)
    · exact h.wellFormed t ht
  rcases heffect.mem_types.1 ht with hstored | hold
  · cases houtcome : ((empty.after calls).call c).2 with
    | error e =>
      obtain ⟨first, hpasses⟩ := heffect.passes_of_mem hstored
      exact .inr ⟨t, mem_chain_self t, calls, c, [], e, rfl, houtcome, ht,
        fun hmem => hpasses.new_canonical t hmem rfl⟩
    | ok _ =>
      rw [houtcome] at heffect
      rcases heffect.complete_or (hvalid.call c) hc h.wellFormed h.complete_or_left with
        hcomplete | ⟨rest', hchain', u, hu, hleft⟩
      · exact .inl fun u hu => hcomplete u (chain_subset_of_mem (hpassed t hstored) hu)
      · -- The type left by a failed call comes later in the chain than what this call has stored.
        obtain ⟨next, hnext, -⟩ := chain_of_mem_first hchain' hstored
        exact .inr ⟨u, by simp [hnext, hu], hleft.append [c]⟩
  · rcases h.complete_or_left t hold with hcomplete | ⟨u, hu, hleft⟩
    · exact .inl (hcomplete.mono fun u hu => heffect.mem_types.2 (.inr hu))
    · exact .inr ⟨u, hu, hleft.append [c]⟩

theorem accounted_after {calls : List Call} (hcalls : ∀ c ∈ calls, c.root.WellFormed) :
    Accounted calls (empty.after calls) := by
  induction calls using List.reverseRecOn with
  | nil => exact ⟨by simp [after, empty, types], by simp [after, empty, types]⟩
  | append_singleton calls c ih =>
    rw [after_append]
    exact (ih fun d hd => hcalls d (by simp [hd])).call (hcalls c (by simp))

/-! ## Repeated calls -/

/-- A stored type is not walked from again. -/
theorem Valid.call_of_mem {c : Call} (h : set.Valid) (hc : c.root ∈ set.types) :
    (set.call c).2 = .ok () := by
  obtain ⟨hplain, hshared⟩ := h.plain hc
  have hstored : set.contains c.root.canonical = true :=
    List.contains_iff_mem.2 (h.mem_canonicals.2 ⟨_, hc, rfl⟩)
  rw [call_eq_walk, chain_eq, SharedSet.walk]
  simp [hplain, hshared, hstored]

theorem Puts.eq_of_nil (h : Puts set [] set') : set' = set := by
  cases h
  rfl

/-- A call that leaves another set has stored at least the type at which it started. -/
theorem root_mem_of_call_ne {c : Call} (hne : (set.call c).1 ≠ set) :
    c.root ∈ (set.call c).1.types := by
  rw [call_eq_walk] at hne ⊢
  obtain ⟨stored, rest, hchain, hputs, -⟩ := walk_spec set c.root.chain
  refine hputs.mem_types.2 (.inl ?_)
  cases stored with
  | nil => exact absurd hputs.eq_of_nil hne
  | cons t stored =>
    rw [chain_eq] at hchain
    obtain ⟨rfl, -⟩ := List.cons.inj hchain
    exact List.mem_cons_self

/-- A failed call that is repeated at once succeeds exactly if it has changed the set. -/
theorem Valid.repeat_ok_iff {c : Call} (h : set.Valid) {e : SchemaError}
    (herr : (set.call c).2 = .error e) :
    ((set.call c).1.call c).2 = .ok () ↔ (set.call c).1 ≠ set := by
  constructor
  · intro hok heq
    rw [heq, herr] at hok
    cases hok
  · intro hne
    exact (h.call c).call_of_mem (root_mem_of_call_ne hne)

/-! ## Main statement -/

/-- After any calls on types from type strings, some of which may have failed, the next call keeps
its contract exactly if it fails or no type of its chain was left by a call that failed. A failed
call fails again when it is repeated at once, unless it has stored something: then it succeeds. -/
theorem keepsContract_iff {calls : List Call} {c : Call} (hcalls : ∀ d ∈ calls, d.Parsed)
    (hc : c.Parsed) :
    ((empty.after calls).KeepsContract c ↔
      (((empty.after calls).call c).2 = .ok () → ∀ t ∈ c.root.chain, ¬ LeftBy calls t)) ∧
    ∀ e, ((empty.after calls).call c).2 = .error e →
      ((((empty.after calls).call c).1.call c).2 = .ok () ↔
        ((empty.after calls).call c).1 ≠ empty.after calls) := by
  have hvalid := valid_empty.after calls
  have haccounted := accounted_after fun d hd => (hcalls d hd).wellFormed
  obtain ⟨passed, heffect⟩ := hvalid.effect_call c
  refine ⟨⟨fun hkeeps hok t ht hleft => ?_, fun hleft => ?_⟩, fun e => hvalid.repeat_ok_iff⟩
  · obtain ⟨u, hu, hblocked⟩ := hleft.blocked
    exact (hblocked.of_effect heffect).not_settled
      (hkeeps.complete hok u (chain_subset_of_mem ht hu))
  · have hcomplete : ((empty.after calls).call c).2 = .ok () →
        ((empty.after calls).call c).1.Complete c.root := by
      intro hok
      rw [hok] at heffect
      refine (heffect.complete_or (hvalid.call c) hc.wellFormed haccounted.wellFormed
        haccounted.complete_or_left).resolve_right ?_
      rintro ⟨rest, hchain, u, hu, hu'⟩
      exact hleft hok u (by simp [hchain, hu]) hu'
    refine ⟨hcomplete, fun ⟨t, ht, hnullable⟩ => ?_⟩
    cases houtcome : ((empty.after calls).call c).2 with
    | ok _ => exact absurd (hcomplete houtcome t ht) (Blocked.not_settled (.inl hnullable))
    | error e =>
      rw [houtcome] at heffect
      obtain ⟨u, rest, -, -, rfl⟩ := heffect.blocked
      exact ⟨_, rfl⟩

/-- A list of nullable numbers. -/
def nullableNumbers : TypeExpr :=
  .list false (.scalar true .int)

/-- After a failed call for such a list, an array of them is accepted, against the contract. A list
of other types is still inserted as it should be. -/
theorem keepsContract_after_nullableNumbers :
    (∀ d ∈ [Call.track nullableNumbers], d.Parsed) ∧
    (empty.call (.track nullableNumbers)).2 = .error (.unsupported "int?") ∧
    ¬ (empty.after [.track nullableNumbers]).KeepsContract
      (.insert (.array false nullableNumbers)) ∧
    (empty.after [.track nullableNumbers]).KeepsContract
      (.insert (.list false (.enum false "Color"))) := by
  have hparsed : ∀ d ∈ [Call.track nullableNumbers], d.Parsed :=
    List.forall_mem_singleton.2 ⟨"List<int?>", by decide +kernel⟩
  have herr : (empty.call (.track nullableNumbers)).2 = .error (.unsupported "int?") := by
    decide +kernel
  refine ⟨hparsed, herr, fun hkeeps => ?_, ?_⟩
  · have hleft : LeftBy [Call.track nullableNumbers] nullableNumbers :=
      ⟨[], _, [], _, rfl, herr, by decide +kernel, by decide +kernel⟩
    have hiff := (keepsContract_iff (c := .insert (.array false nullableNumbers)) hparsed
      ⟨"List<int?>[]", by decide +kernel⟩).1
    exact hiff.1 hkeeps (by decide +kernel) _ (by decide +kernel) hleft
  · have hiff := (keepsContract_iff (c := .insert (.list false (.enum false "Color"))) hparsed
      ⟨"List<enum Color>", by decide +kernel⟩).1
    refine hiff.2 fun _ t ht hleft => ?_
    obtain ⟨u, hu, hblocked⟩ := hleft.blocked
    have hnone : ∀ v ∈ (TypeExpr.list false (.enum false "Color")).chain,
        ¬ (empty.after [.track nullableNumbers]).Blocked v := by
      unfold Blocked
      decide +kernel
    exact hnone u (chain_subset_of_mem ht hu) hblocked

/-- A type with a nullable type on its chain is refused at first and accepted when it is inserted
again. -/
theorem nullableNumbers_accepted_when_repeated :
    parse "List<int?>" = .ok nullableNumbers ∧ .scalar true .int ∈ nullableNumbers.chain ∧
    (empty.insert nullableNumbers).2 = .error (.unsupported "int?") ∧
    ((empty.insert nullableNumbers).1.insert nullableNumbers).2 = .ok () := by
  decide +kernel

end SharedSet

end Marshal
