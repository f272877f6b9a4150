import Marshal.Proofs.TypeExpr.Grammar

/-!
# Canonical spellings are read back

The types that come out of a type string are the well-formed ones: their names are such as no other
rule of the grammar takes apart, and the canonical spelling of a dictionary key has no comma. Main
statement: the canonical spelling of a type is read as that type exactly if the type is well-formed,
and then it tells the type apart from all other well-formed types.
-/

namespace Marshal

namespace TypeExpr

/-- The types that a type string can stand for. -/
def WellFormed : TypeExpr → Prop
  | scalar _ _ => True
  | enum _ name => IsName name.toList
  | composite _ name => IsCompositeName name.toList
  | array _ elem => elem.WellFormed
  | list _ elem => elem.WellFormed
  | dictionary _ key value => key.WellFormed ∧ value.WellFormed ∧ ',' ∉ key.canonical.toList

instance decidableWellFormed : (t : TypeExpr) → Decidable t.WellFormed
  | scalar _ _ => isTrue trivial
  | enum _ name => inferInstanceAs (Decidable (IsName name.toList))
  | composite _ name => inferInstanceAs (Decidable (IsCompositeName name.toList))
  | array _ elem => decidableWellFormed elem
  | list _ elem => decidableWellFormed elem
  | dictionary _ key value =>
    have := decidableWellFormed key
    have := decidableWellFormed value
    inferInstanceAs (Decidable (key.WellFormed ∧ value.WellFormed ∧ ',' ∉ key.canonical.toList))

theorem wellFormed_withNullable (b : Bool) (t : TypeExpr) :
    (t.withNullable b).WellFormed ↔ t.WellFormed := by
  cases t <;> rfl

theorem canonical_withNullable (b : Bool) (t : TypeExpr) :
    (t.withNullable b).canonical = mark b t.inner.canonical := by
  cases t <;> rfl

/-! ## What is read is well-formed -/

theorem comma_mem_mark (b : Bool) (w : String) : ',' ∈ (mark b w).toList ↔ ',' ∈ w.toList := by
  cases b <;> simp [mark]

theorem comma_mem_canonical_withNullable (b : Bool) (t : TypeExpr) :
    ',' ∈ (t.withNullable b).canonical.toList ↔ ',' ∈ t.canonical.toList := by
  rw [canonical_withNullable, comma_mem_mark]
  conv_rhs => rw [← withNullable_isNullable t, canonical_withNullable, comma_mem_mark]

/-- Only a dictionary has a comma in its canonical spelling, and then it is spelled with one. -/
theorem comma_not_mem_canonical {cs : List Char} {t : TypeExpr} (h : Spells cs t)
    (hcs : ',' ∉ cs) : ',' ∉ t.canonical.toList := by
  induction h with
  | pad _ _ _ ih => exact ih fun hc => hcs (by simp [hc])
  | nullable _ ih =>
    rw [comma_mem_canonical_withNullable]
    exact ih fun hc => hcs (by simp [hc])
  | keyword kind => cases kind <;> decide
  | enum _ =>
    have hname : ',' ∉ Text.trim _ := fun hc =>
      hcs (List.mem_append_right _ (Text.mem_of_mem_trim hc))
    simp [canonical, spell, mark, hname]
  | array _ ih =>
    have helem := ih fun hc => hcs (by simp [hc])
    simpa [canonical, spell, mark] using helem
  | list _ ih =>
    have helem := ih fun hc => hcs (by simp [hc])
    simpa [canonical, spell, mark] using helem
  | dictionary => simp at hcs
  | name _ => simpa [canonical, spell, mark] using hcs

theorem wellFormed_of_spells {cs : List Char} {t : TypeExpr} (h : Spells cs t) : t.WellFormed := by
  induction h with
  | pad _ _ _ ih => exact ih
  | nullable _ ih => exact (wellFormed_withNullable _ _).2 ih
  | keyword kind => trivial
  | enum h => rwa [WellFormed, String.toList_ofList]
  | array _ ih => exact ih
  | list _ ih => exact ih
  | dictionary hcomma hkey _ ihk ihv => exact ⟨ihk, ihv, comma_not_mem_canonical hkey hcomma⟩
  | name h => rwa [WellFormed, String.toList_ofList]

theorem wellFormed_of_parse {text : String} {t : TypeExpr} (h : parse text = .ok t) :
    t.WellFormed :=
  wellFormed_of_spells (spells_of_parseChars (parse_eq_ok_iff.1 h))

/-! ## What is well-formed is read back -/

theorem parseChars_mark {w : String} {t : TypeExpr} (b : Bool) (h : parseChars w.toList = .ok t)
    (hplain : t.isNullable = false) : parseChars (mark b w).toList = .ok (t.withNullable b) := by
  cases b with
  | false => rwa [mark, if_neg (by simp), ← hplain, withNullable_isNullable]
  | true => rw [mark, if_pos rfl, String.toList_append, parseChars_nullable, h]; rfl

theorem parseChars_canonical {t : TypeExpr} (h : t.WellFormed) :
    parseChars t.canonical.toList = .ok t := by
  induction t with
  | scalar b kind => exact parseChars_mark b (parseChars_keyword kind) rfl
  | enum b name =>
    refine parseChars_mark (t := enum false name) b ?_ rfl
    have hname : IsName name.toList := h
    rw [String.toList_append, parseChars_enum (by rwa [hname.trimmed]), hname.trimmed,
      String.ofList_toList]
  | composite b name =>
    refine parseChars_mark (t := composite false name) b ?_ rfl
    rw [parseChars_name h, String.ofList_toList]
  | array b elem ih =>
    refine parseChars_mark (t := array false elem) b ?_ rfl
    rw [String.toList_append, parseChars_array, show spell _ elem = elem.canonical from rfl, ih h]
    rfl
  | list b elem ih =>
    refine parseChars_mark (t := list false elem) b ?_ rfl
    rw [String.toList_append, String.toList_append, parseChars_list,
      show spell _ elem = elem.canonical from rfl, ih h]
    rfl
  | dictionary b key value ihk ihv =>
    obtain ⟨hkey, hvalue, hcomma⟩ := h
    have htext : ("Dictionary<" ++ key.canonical ++ ", " ++ value.canonical ++ ">").toList =
        "Dictionary<".toList ++ key.canonical.toList ++ ",".toList ++
          (" ".toList ++ value.canonical.toList ++ []) ++ ">".toList := by
      simp
    have hblank : Text.Blanks " ".toList := by decide
    refine parseChars_mark (t := dictionary false key value) b ?_ rfl
    show parseChars ("Dictionary<" ++ key.canonical ++ ", " ++ value.canonical ++ ">").toList = _
    rw [htext, parseChars_dictionary hcomma, ihk hkey, parseChars_pad hblank Text.blanks_nil,
      ihv hvalue]
    rfl

theorem parse_canonical {t : TypeExpr} (h : t.WellFormed) : parse t.canonical = .ok t :=
  parse_eq_ok_iff.2 (parseChars_canonical h)

theorem canonical_injOn {t u : TypeExpr} (ht : t.WellFormed) (hu : u.WellFormed)
    (h : t.canonical = u.canonical) : t = u := by
  have hread := parse_canonical ht
  rw [h, parse_canonical hu] at hread
  exact (Except.ok.inj hread).symm

/-! ## Main statement -/

/-- What is read is read again from its canonical spelling. The types that can be read are the
well-formed ones, and their canonical spellings differ. -/
theorem canonical_round_trip :
    (∀ (text : String) (t : TypeExpr), parse text = .ok t → parse t.canonical = .ok t) ∧
    (∀ t : TypeExpr, (∃ text, parse text = .ok t) ↔ t.WellFormed) ∧
    (∀ t : TypeExpr, t.WellFormed ↔ parse t.canonical = .ok t) ∧
    ∀ (text text' : String) (t t' : TypeExpr), parse text = .ok t → parse text' = .ok t' →
      t.canonical = t'.canonical → t = t' := by
  refine ⟨fun text t h => parse_canonical (wellFormed_of_parse h), fun t => ⟨?_, fun h => ?_⟩,
    fun t => ⟨parse_canonical, wellFormed_of_parse⟩, fun text text' t t' h h' heq => ?_⟩
  · rintro ⟨text, h⟩
    exact wellFormed_of_parse h
  · exact ⟨t.canonical, parse_canonical h⟩
  · exact canonical_injOn (wellFormed_of_parse h) (wellFormed_of_parse h') heq

/-- A dictionary of nullable arrays of an enum, written with blanks. -/
theorem parse_canonical_spaced_dictionary :
    parse " Dictionary<string ,enum Color[]? > " =
      .ok (dictionary false (scalar false .string) (array true (enum false "Color"))) ∧
    parse "Dictionary<string, enum Color[]?>" =
      .ok (dictionary false (scalar false .string) (array true (enum false "Color"))) := by
  have hread : parse " Dictionary<string ,enum Color[]? > " =
      .ok (dictionary false (scalar false .string) (array true (enum false "Color"))) := by
    decide +kernel
  exact ⟨hread, canonical_round_trip.1 _ _ hread⟩

/-- A key with a comma in its spelling would end at that comma. -/
example : ¬ (dictionary false (composite false "A,B") (scalar false .int)).WellFormed := by
  decide +kernel

end TypeExpr

end Marshal
