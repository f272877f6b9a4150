import Marshal.Proofs.TypeExpr.Grammar

/-!
# What is wrong with a type string

Nullable marks, brackets and `List<…>` are wrappers, and a text in a wrapper is at fault exactly as
the text inside is. Without its wrappers a text is its core. A core can be at fault only if it is
empty, is the word `enum` or begins like a dictionary. `Diagnosis` says what is wrong with a text,
and which fault counts if there are several. Main statement: reading fails with this fault, and with
the whole text that was to be read (`parse_eq_error_iff_diagnosis`).
-/

namespace Marshal

namespace TypeExpr

/-! ## Cores -/

/-- The second text is the first in one wrapper. -/
inductive Wraps (rest : List Char) : List Char → Prop where
  | nullable : Wraps rest (rest ++ "?".toList)
  | array : Wraps rest (rest ++ "[]".toList)
  | list : Wraps rest ("List<".toList ++ rest ++ ">".toList)

/-- What remains of a text when it is trimmed and freed of a wrapper, again and again, until there
is none. -/
inductive HasCore : List Char → List Char → Prop where
  | bare {cs : List Char} (h : ∀ rest, ¬ Wraps rest (Text.trim cs)) : HasCore cs (Text.trim cs)
  | wrapped {cs rest core : List Char} (h : Wraps rest (Text.trim cs)) (hcore : HasCore rest core) :
      HasCore cs core

/-- What is wrong with a text, if anything. A dictionary without its comma or its closing bracket is
at fault whatever its parts are, and the fault of the key counts before that of the value. -/
inductive Diagnosis : List Char → Option Fault → Prop where
  | missing {cs core : List Char} (hcore : HasCore cs core) (h : core = [] ∨ core = "enum".toList) :
      Diagnosis cs (some .missing)
  | noComma {cs body : List Char} (hcore : HasCore cs ("Dictionary<".toList ++ body))
      (h : ',' ∉ body) : Diagnosis cs (some .noComma)
  | noClosing {cs key rest : List Char}
      (hcore : HasCore cs ("Dictionary<".toList ++ key ++ ",".toList ++ rest)) (hcomma : ',' ∉ key)
      (h : ¬ ">".toList <:+ rest) : Diagnosis cs (some .noClosing)
  | key {cs key value : List Char} {fault : Fault}
      (hcore : HasCore cs ("Dictionary<".toList ++ key ++ ",".toList ++ value ++ ">".toList))
      (hcomma : ',' ∉ key) (h : Diagnosis key (some fault)) : Diagnosis cs (some fault)
  | value {cs key value : List Char} {verdict : Option Fault}
      (hcore : HasCore cs ("Dictionary<".toList ++ key ++ ",".toList ++ value ++ ">".toList))
      (hcomma : ',' ∉ key) (hkey : Diagnosis key none) (h : Diagnosis value verdict) :
      Diagnosis cs verdict
  | sound {cs core : List Char} (hcore : HasCore cs core) (hnil : core ≠ [])
      (henum : core ≠ "enum".toList) (hdict : ¬ "Dictionary<".toList <+: core) : Diagnosis cs none

theorem Wraps.length_lt {rest cs : List Char} (h : Wraps rest cs) : rest.length < cs.length := by
  cases h <;> simp
  omega

theorem HasCore.trimmed {cs core : List Char} (h : HasCore cs core) : Text.trim core = core := by
  induction h with
  | bare => exact Text.trim_trim _
  | wrapped _ _ ih => exact ih

theorem HasCore.not_wraps {cs core : List Char} (h : HasCore cs core) :
    ∀ rest, ¬ Wraps rest core := by
  induction h with
  | bare h => exact h
  | wrapped _ _ ih => exact ih

theorem exists_core (cs : List Char) : ∃ core, HasCore cs core ∧ core.length ≤ cs.length := by
  induction hn : cs.length using Nat.strong_induction_on generalizing cs with
  | _ n ih =>
    have htrim := Text.length_trim_le cs
    by_cases h : ∃ rest, Wraps rest (Text.trim cs)
    · obtain ⟨rest, hrest⟩ := h
      have hlt := hrest.length_lt
      obtain ⟨core, hcore, hle⟩ := ih rest.length (by omega) rest rfl
      exact ⟨core, .wrapped hrest hcore, by omega⟩
    · exact ⟨_, .bare (not_exists.1 h), by omega⟩

/-! ## The fault that reading reports -/

/-- What is wrong with a text, if it cannot be read. -/
def fault? (cs : List Char) : Option Fault :=
  Outcome.error? (parseChars cs)

theorem fault?_of_wraps {rest cs : List Char} (h : Wraps rest cs) : fault? cs = fault? rest := by
  cases h with
  | nullable => rw [fault?, parseChars_nullable, Outcome.error?_map, fault?]
  | array => rw [fault?, parseChars_array, Outcome.error?_map, fault?]
  | list => rw [fault?, parseChars_list, Outcome.error?_map, fault?]

/-- Wrappers and the blanks around them hide no fault and add none. -/
theorem HasCore.fault?_eq {cs core : List Char} (h : HasCore cs core) :
    fault? cs = fault? core := by
  have htrim : ∀ cs, fault? (Text.trim cs) = fault? cs := fun cs => by
    rw [fault?, parseChars_congr (Text.trim_trim cs), fault?]
  induction h with
  | bare => exact (htrim _).symm
  | wrapped hwraps _ ih => rw [← htrim, fault?_of_wraps hwraps, ih]

namespace Form

/-- The fault of a form, which for most is that of the texts that remain to be read. -/
def fault? : Form → Option Fault
  | missing => some .missing
  | noComma => some .noComma
  | noClosing => some .noClosing
  | nullable rest | array rest | list rest => TypeExpr.fault? rest
  | dictionary key value => (TypeExpr.fault? key).or (TypeExpr.fault? value)
  | scalar _ | enum _ | composite => none

theorem fault?_of {cs : List Char} (htrim : Text.trim cs = cs) :
    (of cs).fault? = TypeExpr.fault? cs := by
  rw [TypeExpr.fault?, parseChars_eq, htrim]
  cases of cs with
  | nullable rest | array rest | list rest => exact (Outcome.error?_map _).symm
  | dictionary key value => exact (Outcome.error?_bind_map _ _).symm
  | _ => rfl

/-- A text that begins like a dictionary and has no wrapper is split as a dictionary. -/
theorem of_dictionaryStart {body : List Char}
    (hbare : ∀ rest, ¬ Wraps rest ("Dictionary<".toList ++ body)) :
    of ("Dictionary<".toList ++ body) = ofDictionary body := by
  have hmark : Text.beforeEnd? "?".toList ("Dictionary<".toList ++ body) = none :=
    Text.beforeEnd?_eq_none.2 fun ⟨rest, h⟩ => hbare rest (h ▸ .nullable)
  have hbrackets : Text.beforeEnd? "[]".toList ("Dictionary<".toList ++ body) = none :=
    Text.beforeEnd?_eq_none.2 fun ⟨rest, h⟩ => hbare rest (h ▸ .array)
  have hkeyword : Scalar.ofKeyword? (String.ofList ("Dictionary<".toList ++ body)) = none :=
    ofKeyword?_of_mem (c := '<') (by simp) (by decide)
  have henum : "Dictionary<".toList ++ body ≠ "enum".toList := by simp
  have hname : enumName? ("Dictionary<".toList ++ body) = none := by
    rw [enumName?, Text.afterStart?_eq_none.2 (by simp)]
  have hlist : listElem? ("Dictionary<".toList ++ body) = none :=
    Option.eq_none_iff_forall_ne_some.2 fun elem h => by simpa using listElem?_eq_some.1 h
  rw [of, if_neg (by simp), hmark, hkeyword, if_neg henum, hname, hbrackets, hlist,
    Text.afterStart?_eq_some.2 rfl]

/-- A text without wrappers is in order if it is not empty, is not the word `enum` and does not
begin like a dictionary. -/
theorem fault?_of_sound {cs : List Char} (htrim : Text.trim cs = cs)
    (hbare : ∀ rest, ¬ Wraps rest cs) (hnil : cs ≠ []) (henum : cs ≠ "enum".toList)
    (hdict : ¬ "Dictionary<".toList <+: cs) : (of cs).fault? = none := by
  have hexplains := explains_of htrim
  generalize of cs = form at hexplains ⊢
  cases form with
  | scalar | enum | composite => rfl
  | missing => exact absurd hexplains (not_or.2 ⟨hnil, henum⟩)
  | nullable rest =>
    obtain rfl : cs = rest ++ "?".toList := hexplains
    exact absurd .nullable (hbare rest)
  | array rest =>
    obtain rfl : cs = rest ++ "[]".toList := hexplains
    exact absurd .array (hbare rest)
  | list rest =>
    obtain rfl : cs = "List<".toList ++ rest ++ ">".toList := hexplains
    exact absurd .list (hbare rest)
  | dictionary key value =>
    obtain ⟨rfl, -⟩ := hexplains
    simp at hdict
  | noComma =>
    obtain ⟨body, rfl, -⟩ := hexplains
    exact absurd (List.prefix_append _ _) hdict
  | noClosing =>
    obtain ⟨key, rest, rfl, -⟩ := hexplains
    simp at hdict

end Form

theorem HasCore.fault?_eq_form {cs core : List Char} (h : HasCore cs core) :
    fault? cs = (Form.of core).fault? := by
  rw [h.fault?_eq, Form.fault?_of h.trimmed]

/-! ## Diagnosis -/

theorem Diagnosis.fault?_eq {cs : List Char} {verdict : Option Fault} (h : Diagnosis cs verdict) :
    fault? cs = verdict := by
  induction h with
  | missing hcore h =>
    rw [hcore.fault?_eq_form]
    rcases h with rfl | rfl <;> decide
  | @noComma _ body hcore h =>
    rw [hcore.fault?_eq_form, Form.of_dictionaryStart hcore.not_wraps, Form.ofDictionary,
      Text.splitFirst?_eq_none.2 h, Form.fault?]
  | @noClosing _ key rest hcore hcomma h =>
    have hbody : "Dictionary<".toList ++ key ++ ",".toList ++ rest
        = "Dictionary<".toList ++ (key ++ ',' :: rest) := by simp
    rw [hbody] at hcore
    rw [hcore.fault?_eq_form, Form.of_dictionaryStart hcore.not_wraps, Form.ofDictionary,
      Text.splitFirst?_eq_some.2 ⟨rfl, hcomma⟩]
    simp only [Text.beforeEnd?_eq_none.2 h, Form.fault?]
  | key hcore hcomma _ ih =>
    rw [hcore.fault?_eq_form, Form.of_dictionary hcomma, Form.fault?, ih, Option.some_or]
  | value hcore hcomma _ _ ihkey ih =>
    rw [hcore.fault?_eq_form, Form.of_dictionary hcomma, Form.fault?, ihkey, ih, Option.none_or]
  | sound hcore hnil henum hdict =>
    rw [hcore.fault?_eq_form,
      Form.fault?_of_sound hcore.trimmed hcore.not_wraps hnil henum hdict]

theorem exists_diagnosis (cs : List Char) : ∃ verdict, Diagnosis cs verdict := by
  -- The parts of a dictionary are shorter than the core, which is no longer than the text.
  induction hn : cs.length using Nat.strong_induction_on generalizing cs with
  | _ n ih =>
    obtain ⟨core, hcore, hle⟩ := exists_core cs
    by_cases hmissing : core = [] ∨ core = "enum".toList
    · exact ⟨_, .missing hcore hmissing⟩
    obtain ⟨hnil, henum⟩ := not_or.1 hmissing
    by_cases hdict : "Dictionary<".toList <+: core
    swap
    · exact ⟨_, .sound hcore hnil henum hdict⟩
    obtain ⟨body, rfl⟩ := hdict
    by_cases hcomma : ',' ∈ body
    swap
    · exact ⟨_, .noComma hcore hcomma⟩
    obtain ⟨key, rest, rfl, hkey⟩ := List.eq_append_cons_of_mem hcomma
    have hsplit : "Dictionary<".toList ++ (key ++ ',' :: rest)
        = "Dictionary<".toList ++ key ++ ",".toList ++ rest := by simp
    rw [hsplit] at hcore
    by_cases hclose : ">".toList <:+ rest
    swap
    · exact ⟨_, .noClosing hcore hkey hclose⟩
    obtain ⟨value, rfl⟩ := hclose
    rw [← List.append_assoc] at hcore
    simp only [List.length_append, List.length_cons] at hle
    obtain ⟨verdict, hverdict⟩ := ih key.length (by omega) key rfl
    cases verdict with
    | some fault => exact ⟨_, .key hcore hkey hverdict⟩
    | none =>
      obtain ⟨verdict, hvalue⟩ := ih value.length (by omega) value rfl
      exact ⟨_, .value hcore hkey hverdict hvalue⟩

theorem diagnosis_iff {cs : List Char} {verdict : Option Fault} :
    Diagnosis cs verdict ↔ fault? cs = verdict := by
  refine ⟨Diagnosis.fault?_eq, ?_⟩
  rintro rfl
  obtain ⟨verdict, h⟩ := exists_diagnosis cs
  rwa [h.fault?_eq]

theorem parse_eq_error_iff {text : String} {e : SchemaError} :
    parse text = .error e ↔
      ∃ fault, fault? text.toList = some fault ∧ e = .malformedType fault text := by
  simp only [fault?, Outcome.error?_eq_some_iff, parse]
  split <;> simp [*, eq_comm]

/-- What stands after `enum ` in a trimmed text is more than blanks. -/
theorem trim_enumName?_ne_nil {cs name : List Char}
    (h : Form.enumName? (Text.trim cs) = some name) : Text.trim name ≠ [] := by
  obtain ⟨hcs, -⟩ := Form.enumName?_eq_some.1 h
  have htrim := Text.trim_trim cs
  rw [hcs] at htrim
  intro hnil
  rw [Text.trim_append_blanks (Text.trim_eq_nil_iff.1 hnil)] at htrim
  have hshort : (Text.trim "enum ".toList).length < "enum ".toList.length := by decide
  rw [htrim, List.length_append] at hshort
  omega

/-! ## Main statement -/

/-- Every text has one diagnosis, and it decides whether the text can be read. If it cannot, the
error has the kind of the fault, and names the whole text as it was given, however deep the part at
fault is. The name of an enum is never at fault, because what follows `enum ` is never blank. -/
theorem parse_eq_error_iff_diagnosis :
    (∀ (text : String) (e : SchemaError), parse text = .error e ↔
      ∃ fault, Diagnosis text.toList (some fault) ∧ e = .malformedType fault text) ∧
    (∀ text : String, (∃ t, parse text = .ok t) ↔ Diagnosis text.toList none) ∧
    (∀ cs : List Char, ∃! verdict, Diagnosis cs verdict) ∧
    (∀ text : String,
      (SchemaError.malformedType .missing text).kind = "NoTypeInfo" ∧
      (SchemaError.malformedType .noComma text).kind = "MissingCommaInDictionary" ∧
      (SchemaError.malformedType .noClosing text).kind = "MissingClosingInDictionary") ∧
    ∀ cs name : List Char, Form.enumName? (Text.trim cs) = some name → Text.trim name ≠ [] := by
  refine ⟨fun text e => ?_, fun text => ?_, fun cs => ?_, fun text => ⟨rfl, rfl, rfl⟩,
    fun cs name h => trim_enumName?_ne_nil h⟩
  · simp only [parse_eq_error_iff, diagnosis_iff]
  · simp only [parse_eq_ok_iff, diagnosis_iff, fault?, Outcome.error?_eq_none_iff]
  · simp only [diagnosis_iff, existsUnique_eq']

/-- A dictionary in three wrappers. Its key is at fault and so is its value, and that of the key
counts. -/
theorem diagnosis_of_wrapped_dictionary :
    parse " List<Dictionary< enum ,Dictionary<int>>[]>? " =
      .error (.malformedType .missing " List<Dictionary< enum ,Dictionary<int>>[]>? ") ∧
    Diagnosis " List<Dictionary< enum ,Dictionary<int>>[]>? ".toList (some .missing) ∧
    Form.enumName? (Text.trim " enum  X ".toList) = some " X".toList ∧
    Text.trim " X".toList ≠ [] := by
  obtain ⟨herror, -, -, -, hname⟩ := parse_eq_error_iff_diagnosis
  have hread : parse " List<Dictionary< enum ,Dictionary<int>>[]>? " =
      .error (.malformedType .missing " List<Dictionary< enum ,Dictionary<int>>[]>? ") := by
    decide +kernel
  have henum : Form.enumName? (Text.trim " enum  X ".toList) = some " X".toList := by decide
  obtain ⟨fault, hdiagnosis, heq⟩ := (herror _ _).1 hread
  obtain ⟨rfl, -⟩ := SchemaError.malformedType.inj heq
  exact ⟨hread, hdiagnosis, henum, hname _ _ henum⟩

end TypeExpr

end Marshal
