import Marshal.Proofs.SharedSet.Effect

/-!
# Types with the same C# spelling

C# code writes the name of an enum alone, as it writes that of a composite. A type spelled this way
is spelled in a schema by the type in which every enum is taken for a composite (`forgetEnums`). If
the names of the enums can name composites, that type can be read, so the spelling determines it.
Main statement: two types have the same C# spelling exactly if they differ at most in which names
are marked `enum`, and the shared set refuses a type for its spelling exactly if it stores another
one that differs from it in this way only.
-/

namespace Marshal

namespace TypeExpr

/-- The names of the enums in a type, those in the keys of dictionaries included. -/
def enumNames : TypeExpr → List String
  | enum _ name => [name]
  | scalar _ _ | composite _ _ => []
  | array _ elem | list _ elem => elem.enumNames
  | dictionary _ key value => key.enumNames ++ value.enumNames

/-- The type in which every enum is taken for the composite of that name. -/
def forgetEnums : TypeExpr → TypeExpr
  | scalar nullable kind => scalar nullable kind
  | enum nullable name | composite nullable name => composite nullable name
  | array nullable elem => array nullable elem.forgetEnums
  | list nullable elem => list nullable elem.forgetEnums
  | dictionary nullable key value => dictionary nullable key.forgetEnums value.forgetEnums

/-- The type is read from a type string, and the names of its enums are read as composites. -/
structure EnumsNameTypes (t : TypeExpr) : Prop where
  read : ∃ text, parse text = .ok t
  names : ∀ name ∈ t.enumNames, ∃ u, parse name = .ok u ∧ u.isComposite = true

/-! ## The spelling without the word `enum` -/

theorem csharp_eq_canonical_forgetEnums (t : TypeExpr) : t.csharp = t.forgetEnums.canonical := by
  induction t with
  | scalar | enum | composite => rfl
  | array b elem ih | list b elem ih =>
    simp only [csharp, canonical, spell, forgetEnums] at ih ⊢
    rw [ih]
  | dictionary b key value ihk ihv =>
    simp only [csharp, canonical, spell, forgetEnums] at ihk ihv ⊢
    rw [ihk, ihv]

theorem mark_sublist {w v : String} (h : w.toList.Sublist v.toList) (b : Bool) :
    (mark b w).toList.Sublist (mark b v).toList := by
  cases b with
  | false => exact h
  | true =>
    rw [mark, mark, if_pos rfl, if_pos rfl, String.toList_append, String.toList_append]
    exact h.append (.refl _)

/-- The C# spelling is the canonical one with some of the words `enum` left out. -/
theorem csharp_sublist_canonical (t : TypeExpr) :
    t.csharp.toList.Sublist t.canonical.toList := by
  induction t with
  | scalar | composite => exact .refl _
  | enum b name =>
    refine mark_sublist (v := "enum " ++ name) ?_ b
    rw [String.toList_append]
    exact List.sublist_append_right _ _
  | array b elem ih =>
    refine mark_sublist (w := elem.csharp ++ "[]") (v := elem.canonical ++ "[]") ?_ b
    simp only [String.toList_append]
    exact ih.append (.refl _)
  | list b elem ih =>
    refine mark_sublist (w := "List<" ++ elem.csharp ++ ">")
      (v := "List<" ++ elem.canonical ++ ">") ?_ b
    simp only [String.toList_append]
    exact ((List.Sublist.refl _).append ih).append (.refl _)
  | dictionary b key value ihk ihv =>
    refine mark_sublist (w := "Dictionary<" ++ key.csharp ++ ", " ++ value.csharp ++ ">")
      (v := "Dictionary<" ++ key.canonical ++ ", " ++ value.canonical ++ ">") ?_ b
    simp only [String.toList_append]
    exact ((((List.Sublist.refl _).append ihk).append (.refl _)).append ihv).append (.refl _)

/-! ## Types with the same C# spelling -/

/-- A name is read as a composite only if it can name one. -/
theorem isCompositeName_of_parse {name : String} {u : TypeExpr} (hname : IsName name.toList)
    (h : parse name = .ok u) (hu : u.isComposite = true) : IsCompositeName name.toList := by
  have hexplains := Form.explains_of hname.trimmed
  have hread := parse_eq_ok_iff.1 h
  rw [parseChars_eq, hname.trimmed] at hread
  generalize Form.of name.toList = form at hexplains hread
  cases form with
  | composite => exact hexplains
  | nullable rest =>
    have hmark : name.toList = rest ++ "?".toList := hexplains
    exact absurd (hmark ▸ List.suffix_append _ _) hname.no_mark
  | missing | noComma | noClosing => cases hread
  | scalar | enum =>
    obtain rfl := Except.ok.inj hread
    cases hu
  | array rest | list rest =>
    obtain ⟨elem, -, rfl⟩ := Outcome.map_eq_ok_iff.1 hread
    cases hu
  | dictionary key value =>
    obtain ⟨k, -, hvalue⟩ := Outcome.bind_eq_ok_iff.1 hread
    obtain ⟨v, -, rfl⟩ := Outcome.map_eq_ok_iff.1 hvalue
    cases hu

theorem wellFormed_forgetEnums {t : TypeExpr} (ht : t.WellFormed)
    (hnames : ∀ name ∈ t.enumNames, ∃ u, parse name = .ok u ∧ u.isComposite = true) :
    t.forgetEnums.WellFormed := by
  induction t with
  | scalar | composite => exact ht
  | enum b name =>
    obtain ⟨u, hread, hu⟩ := hnames name (List.mem_singleton.2 rfl)
    exact isCompositeName_of_parse ht hread hu
  | array b elem ih | list b elem ih => exact ih ht hnames
  | dictionary b key value ihk ihv =>
    obtain ⟨hkey, hvalue, hcomma⟩ := ht
    refine ⟨ihk hkey fun name hn => hnames name (List.mem_append_left _ hn),
      ihv hvalue fun name hn => hnames name (List.mem_append_right _ hn), ?_⟩
    rw [← csharp_eq_canonical_forgetEnums]
    exact fun hc => hcomma ((csharp_sublist_canonical key).subset hc)

namespace EnumsNameTypes

variable {t u : TypeExpr}

theorem wellFormed (h : t.EnumsNameTypes) : t.WellFormed := by
  obtain ⟨text, htext⟩ := h.read
  exact wellFormed_of_parse htext

theorem csharp_eq_iff (ht : t.EnumsNameTypes) (hu : u.EnumsNameTypes) :
    t.csharp = u.csharp ↔ t.forgetEnums = u.forgetEnums := by
  rw [csharp_eq_canonical_forgetEnums, csharp_eq_canonical_forgetEnums]
  refine ⟨canonical_injOn ?_ ?_, congrArg canonical⟩
  · exact wellFormed_forgetEnums ht.wellFormed ht.names
  · exact wellFormed_forgetEnums hu.wellFormed hu.names

end EnumsNameTypes

end TypeExpr

namespace SharedSet

open TypeExpr

variable {set : SharedSet} {t : TypeExpr}

/-! ## The check on spellings -/

/-- The set has come about by calls on an empty set, the last of which may still be on its way. -/
def Reached (set : SharedSet) : Prop :=
  ∃ calls passed, Puts (empty.after calls) passed set

theorem Reached.valid (h : set.Reached) : set.Valid := by
  obtain ⟨calls, passed, hputs⟩ := h
  exact hputs.valid (valid_empty.after calls)

/-- A type that is not stored is refused at once or stored, before the types it depends on are
looked at. -/
theorem insert_of_new (hplain : t.isNullable = false) (hshared : t.isComposite = false)
    (hnew : t.canonical ∉ set.canonicals) :
    set.insert t =
      if t.csharp ∈ set.spellings then (set, .error (.unsupported t.canonical))
      else (set.put t).walk (t.dependency?.elim [] chain) := by
  have hstored : set.contains t.canonical = false := by
    simpa [contains] using hnew
  rw [insert, chain_eq, walk, hplain, hshared]
  simp only [hstored, Bool.false_eq_true, if_false, List.contains_iff_mem]
  rfl

/-- A type is refused, and the set stays as it is, exactly if the C# spelling is in use. -/
theorem insert_eq_refused_iff (hset : set.Valid) (hplain : t.isNullable = false)
    (hshared : t.isComposite = false) (hnew : t.canonical ∉ set.canonicals) :
    set.insert t = (set, .error (.unsupported t.canonical)) ↔ t.csharp ∈ set.spellings := by
  rw [insert_of_new hplain hshared hnew]
  split
  · next h => exact iff_of_true rfl h
  · next h =>
    refine iff_of_false (fun heq => hnew ?_) h
    obtain ⟨stored, rest, -, hputs, -⟩ := walk_spec (set.put t) (t.dependency?.elim [] chain)
    have hmem := hputs.subset (mem_types_put.2 (.inl rfl))
    rw [heq] at hmem
    exact hset.mem_canonicals.2 ⟨t, hmem, rfl⟩

/-- What has the C# spelling of a stored type differs from it at most in its marks `enum`. -/
theorem Valid.mem_spellings_iff_forgetEnums (hset : set.Valid)
    (htypes : ∀ u ∈ set.types, u.EnumsNameTypes) (ht : t.EnumsNameTypes) :
    t.csharp ∈ set.spellings ↔ ∃ u ∈ set.types, u.forgetEnums = t.forgetEnums := by
  rw [hset.mem_spellings]
  exact exists_congr fun u => and_congr_right fun hu => (htypes u hu).csharp_eq_iff ht

/-! ## Main statement -/

/-- If the names of all enums can name composites, two types have the same C# spelling exactly if
they become equal when every enum is taken for a composite. A shared set of such types therefore
refuses a new one for its C# spelling exactly if it stores a type that differs from it only in which
names are marked `enum`. -/
theorem csharp_collision_iff :
    (∀ t u : TypeExpr, t.EnumsNameTypes → u.EnumsNameTypes →
      (t.csharp = u.csharp ↔ t.forgetEnums = u.forgetEnums)) ∧
    ∀ set : SharedSet, set.Reached → (∀ u ∈ set.types, u.EnumsNameTypes) →
      ∀ t : TypeExpr, t.EnumsNameTypes → t.isNullable = false → t.isComposite = false →
        t ∉ set.types →
        (set.spellings.contains t.csharp = true ↔
          ∃ u ∈ set.types, u.forgetEnums = t.forgetEnums) ∧
        (set.insert t = (set, .error (.unsupported t.canonical)) ↔
          ∃ u ∈ set.types, u.forgetEnums = t.forgetEnums) := by
  refine ⟨fun t u ht hu => ht.csharp_eq_iff hu,
    fun set hreached htypes t ht hplain hshared hnew => ?_⟩
  have hset := hreached.valid
  have hcanonical : t.canonical ∉ set.canonicals := fun hmem => by
    obtain ⟨u, hu, heq⟩ := hset.mem_canonicals.1 hmem
    exact hnew (canonical_injOn (htypes u hu).wellFormed ht.wellFormed heq ▸ hu)
  have hspellings := hset.mem_spellings_iff_forgetEnums htypes ht
  exact ⟨List.contains_iff_mem.trans hspellings,
    (insert_eq_refused_iff hset hplain hshared hcanonical).trans hspellings⟩

/-- Arrays of a composite and of an enum of the same name: where the first is stored, the second is
refused. -/
theorem csharp_collision_of_arrays :
    (array false (enum false "Color")).csharp = (array false (composite false "Color")).csharp ∧
    (empty.after [.insert (array false (composite false "Color"))]).insert
        (array false (enum false "Color")) =
      (empty.after [.insert (array false (composite false "Color"))],
        .error (.unsupported "enum Color[]")) := by
  obtain ⟨hspelling, hrefused⟩ := csharp_collision_iff
  have htypes : (empty.after [.insert (array false (composite false "Color"))]).types =
      [array false (composite false "Color")] := by
    decide +kernel
  have hplain : (array false (composite false "Color")).EnumsNameTypes :=
    ⟨⟨"Color[]", by decide +kernel⟩, by simp [enumNames]⟩
  have henum : (array false (enum false "Color")).EnumsNameTypes := by
    refine ⟨⟨"enum Color[]", by decide +kernel⟩, fun name hname => ?_⟩
    obtain rfl := List.mem_singleton.1 hname
    exact ⟨composite false "Color", by decide +kernel, rfl⟩
  refine ⟨(hspelling _ _ henum hplain).2 rfl, ?_⟩
  refine (hrefused _ ⟨_, [], .nil _⟩ (fun u hu => ?_) _ henum rfl rfl ?_).2.2
    ⟨array false (composite false "Color"), ?_, rfl⟩
  · rw [htypes, List.mem_singleton] at hu
    exact hu ▸ hplain
  · rw [htypes]
    decide
  · rw [htypes]
    exact List.mem_singleton.2 rfl

/-- An enum whose name is a type of another form is spelled like that type. -/
example : (enum false "List<X>").csharp = (list false (composite false "X")).csharp ∧
    (enum false "List<X>").forgetEnums ≠ (list false (composite false "X")).forgetEnums := by
  decide

end SharedSet

end Marshal
