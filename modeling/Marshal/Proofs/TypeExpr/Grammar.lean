import Marshal.Proofs.Outcome
import Marshal.Proofs.TypeExpr.Reading
import Marshal.SchemaError

/-!
# The grammar of type strings

`Spells cs t` says that the text `cs` spells the type `t`. The rules carry no priorities: each of
them says how a longer text is made from shorter ones. Main statement: a text is read as `t` exactly
if it spells `t` (`parseChars_eq_ok_iff`). No text therefore spells two types, and blanks around the
parts of a text do not matter (`Respaced`).
-/

namespace Marshal

namespace TypeExpr

/-- The texts that spell a type, when `EnumText` says which texts may follow `enum `. -/
inductive SpellsWith (EnumText : List Char → Prop) : List Char → TypeExpr → Prop where
  /-- Blanks may stand around a type. -/
  | pad {before cs after : List Char} {t : TypeExpr} (hb : Text.Blanks before)
      (ha : Text.Blanks after) (h : SpellsWith EnumText cs t) :
      SpellsWith EnumText (before ++ cs ++ after) t
  | nullable {rest : List Char} {t : TypeExpr} (h : SpellsWith EnumText rest t) :
      SpellsWith EnumText (rest ++ "?".toList) (t.withNullable true)
  | keyword (kind : Scalar) : SpellsWith EnumText kind.keyword.toList (scalar false kind)
  | enum {text : List Char} (h : EnumText text) :
      SpellsWith EnumText ("enum ".toList ++ text) (enum false (String.ofList (Text.trim text)))
  | array {rest : List Char} {elem : TypeExpr} (h : SpellsWith EnumText rest elem) :
      SpellsWith EnumText (rest ++ "[]".toList) (array false elem)
  | list {rest : List Char} {elem : TypeExpr} (h : SpellsWith EnumText rest elem) :
      SpellsWith EnumText ("List<".toList ++ rest ++ ">".toList) (list false elem)
  | dictionary {first second : List Char} {key value : TypeExpr} (hcomma : ',' ∉ first)
      (hkey : SpellsWith EnumText first key) (hvalue : SpellsWith EnumText second value) :
      SpellsWith EnumText ("Dictionary<".toList ++ first ++ ",".toList ++ second ++ ">".toList)
        (dictionary false key value)
  | name {cs : List Char} (h : IsCompositeName cs) :
      SpellsWith EnumText cs (composite false (String.ofList cs))

/-- The text after `enum ` is a name, blanks around it apart. -/
def EnumText (text : List Char) : Prop := IsName (Text.trim text)

/-- The texts that spell a type. -/
abbrev Spells : List Char → TypeExpr → Prop := SpellsWith EnumText

/-! ## Reading and spelling -/

theorem parseChars_of_spells {cs : List Char} {t : TypeExpr} (h : Spells cs t) :
    parseChars cs = .ok t := by
  induction h with
  | pad hb ha _ ih => rw [parseChars_pad hb ha, ih]
  | nullable _ ih => rw [parseChars_nullable, ih]; rfl
  | keyword kind => exact parseChars_keyword kind
  | enum h => exact parseChars_enum h
  | array _ ih => rw [parseChars_array, ih]; rfl
  | list _ ih => rw [parseChars_list, ih]; rfl
  | dictionary hcomma _ _ ihk ihv => rw [parseChars_dictionary hcomma, ihk, ihv]; rfl
  | name h => exact parseChars_name h

/-- A trimmed text that is read spells what it is read as, if the parts that remain do. -/
theorem spells_of_form {cs : List Char} {t : TypeExpr} (htrim : Text.trim cs = cs)
    (hparts : ∀ part ∈ (Form.of cs).parts, ∀ u, parseChars part = .ok u → Spells part u)
    (h : parseChars cs = .ok t) : Spells cs t := by
  have hform := Form.explains_of htrim
  rw [parseChars_eq, htrim] at h
  generalize Form.of cs = form at h hform hparts
  cases form with
  | missing => cases h
  | noComma => cases h
  | noClosing => cases h
  | scalar kind =>
    obtain rfl := Except.ok.inj h
    rw [show cs = kind.keyword.toList from hform]
    exact .keyword kind
  | enum name =>
    obtain rfl := Except.ok.inj h
    obtain ⟨text, rfl, rfl, hname⟩ := hform
    exact .enum hname
  | composite =>
    obtain rfl := Except.ok.inj h
    exact .name hform
  | nullable rest =>
    obtain ⟨u, hu, rfl⟩ := Outcome.map_eq_ok_iff.1 h
    rw [show cs = rest ++ "?".toList from hform]
    exact .nullable (hparts rest (by simp [Form.parts]) u hu)
  | array rest =>
    obtain ⟨u, hu, rfl⟩ := Outcome.map_eq_ok_iff.1 h
    rw [show cs = rest ++ "[]".toList from hform]
    exact .array (hparts rest (by simp [Form.parts]) u hu)
  | list rest =>
    obtain ⟨u, hu, rfl⟩ := Outcome.map_eq_ok_iff.1 h
    rw [show cs = "List<".toList ++ rest ++ ">".toList from hform]
    exact .list (hparts rest (by simp [Form.parts]) u hu)
  | dictionary first second =>
    obtain ⟨rfl, hcomma⟩ := hform
    obtain ⟨key, hk, h⟩ := Outcome.bind_eq_ok_iff.1 h
    obtain ⟨value, hv, rfl⟩ := Outcome.map_eq_ok_iff.1 h
    exact .dictionary hcomma (hparts first (by simp [Form.parts]) key hk)
      (hparts second (by simp [Form.parts]) value hv)

theorem spells_of_parseChars {cs : List Char} {t : TypeExpr} (h : parseChars cs = .ok t) :
    Spells cs t := by
  -- What remains to be read is shorter than the trimmed text, which is no longer than the text.
  induction hn : cs.length using Nat.strong_induction_on generalizing cs t with
  | _ n ih =>
    obtain ⟨before, after, hb, ha, hcs⟩ := Text.exists_eq_pad cs
    rw [hcs]
    refine .pad hb ha (spells_of_form (Text.trim_trim cs) (fun part hpart u hu => ?_) ?_)
    · have hlt := Form.length_lt_of_mem_parts hpart
      have hle := Text.length_trim_le cs
      exact ih part.length (by omega) hu rfl
    · rw [← h]
      exact parseChars_congr (Text.trim_trim cs)

theorem parseChars_eq_ok_iff {cs : List Char} {t : TypeExpr} :
    parseChars cs = .ok t ↔ Spells cs t :=
  ⟨spells_of_parseChars, parseChars_of_spells⟩

theorem parse_eq_ok_iff {text : String} {t : TypeExpr} :
    parse text = .ok t ↔ parseChars text.toList = .ok t := by
  unfold parse
  split <;> simp [*]

/-! ## Blanks -/

/-- The second text is the first with further blanks around some of its parts. -/
inductive Respaced : List Char → List Char → Prop where
  | refl (cs : List Char) : Respaced cs cs
  | pad {before cs ds after : List Char} (hb : Text.Blanks before) (ha : Text.Blanks after)
      (h : Respaced cs ds) : Respaced cs (before ++ ds ++ after)
  | nullable {cs ds : List Char} (h : Respaced cs ds) :
      Respaced (cs ++ "?".toList) (ds ++ "?".toList)
  | enum {before after : List Char} (hb : Text.Blanks before) (ha : Text.Blanks after)
      (text : List Char) :
      Respaced ("enum ".toList ++ text) ("enum ".toList ++ (before ++ text ++ after))
  | array {cs ds : List Char} (h : Respaced cs ds) :
      Respaced (cs ++ "[]".toList) (ds ++ "[]".toList)
  | list {cs ds : List Char} (h : Respaced cs ds) :
      Respaced ("List<".toList ++ cs ++ ">".toList) ("List<".toList ++ ds ++ ">".toList)
  | dictionary {key key' value value' : List Char} (hcomma : ',' ∉ key) (hk : Respaced key key')
      (hv : Respaced value value') :
      Respaced ("Dictionary<".toList ++ key ++ ",".toList ++ value ++ ">".toList)
        ("Dictionary<".toList ++ key' ++ ",".toList ++ value' ++ ">".toList)

theorem Respaced.mem_or_blank {cs ds : List Char} (h : Respaced cs ds) {c : Char} (hc : c ∈ ds) :
    c ∈ cs ∨ Text.isBlank c = true := by
  induction h with
  | refl => exact .inl hc
  | pad hb ha _ ih =>
    rcases List.mem_append.1 hc with hc | hc
    · rcases List.mem_append.1 hc with hc | hc
      · exact .inr (hb c hc)
      · exact ih hc
    · exact .inr (ha c hc)
  | nullable _ ih | array _ ih | list _ ih =>
    simp only [List.mem_append] at hc ⊢
    grind
  | enum hb ha text =>
    simp only [List.mem_append] at hc ⊢
    grind [Text.Blanks]
  | dictionary _ _ _ ihk ihv =>
    simp only [List.mem_append] at hc ⊢
    grind

/-- Blanks around the text after `enum ` do not matter, whatever that text is. -/
theorem parseChars_enum_trim (text : List Char) :
    parseChars ("enum ".toList ++ text) = parseChars ("enum ".toList ++ Text.trim text) := by
  induction hn : text.length using Nat.strong_induction_on generalizing text with
  | _ n ih =>
    obtain ⟨before, after, hb, ha, htext⟩ := Text.exists_eq_pad text
    -- A mark or brackets at the end are read first, and leave a shorter text after `enum `.
    have step : ∀ (mark : List Char) (f : TypeExpr → TypeExpr), mark ≠ [] →
        (∀ rest, parseChars (rest ++ mark) = (parseChars rest).map f) →
        mark <:+ Text.trim text →
        parseChars ("enum ".toList ++ text) = parseChars ("enum ".toList ++ Text.trim text) := by
      rintro mark f hne hmark ⟨rest, hrest⟩
      have hpos := List.length_pos_iff.2 hne
      have hlen : (before ++ rest).length < text.length := by
        rw [htext, ← hrest]
        simp only [List.length_append]
        omega
      have hbefore := ih (before ++ rest).length (hn ▸ hlen) (before ++ rest) rfl
      have hplain := ih rest.length (by simp at hlen; omega) rest rfl
      calc parseChars ("enum ".toList ++ text)
          = parseChars ("enum ".toList ++ (before ++ rest) ++ mark) := by
            conv_lhs => rw [htext, ← hrest]
            rw [← parseChars_pad Text.blanks_nil ha ("enum ".toList ++ (before ++ rest) ++ mark)]
            simp only [List.append_assoc, List.nil_append]
        _ = (parseChars ("enum ".toList ++ Text.trim rest)).map f := by
            rw [hmark, hbefore, Text.trim_blanks_append hb]
        _ = parseChars ("enum ".toList ++ Text.trim text) := by
            rw [← hplain, ← hmark, List.append_assoc, hrest]
    by_cases hnil : Text.trim text = []
    · have hblank : Text.trim ("enum ".toList ++ text) = Text.trim ("enum ".toList ++ []) := by
        rw [Text.trim_append_blanks (Text.trim_eq_nil_iff.1 hnil), List.append_nil]
      rw [hnil, parseChars_congr hblank]
    by_cases hmark : "?".toList <:+ Text.trim text
    · exact step _ _ (by decide) parseChars_nullable hmark
    by_cases hbrackets : "[]".toList <:+ Text.trim text
    · exact step _ _ (by decide) parseChars_array hbrackets
    have hname : IsName (Text.trim text) := ⟨hnil, Text.trim_trim text, hmark, hbrackets⟩
    have htrim : IsName (Text.trim (Text.trim text)) := by rwa [Text.trim_trim]
    rw [parseChars_enum hname, parseChars_enum htrim, Text.trim_trim]

theorem Respaced.parseChars_eq {cs ds : List Char} (h : Respaced cs ds) :
    parseChars cs = parseChars ds := by
  induction h with
  | refl => rfl
  | pad hb ha _ ih => rw [parseChars_pad hb ha, ih]
  | nullable _ ih => rw [parseChars_nullable, parseChars_nullable, ih]
  | enum hb ha text =>
    rw [parseChars_enum_trim text, parseChars_enum_trim (_ ++ text ++ _),
      Text.trim_pad hb ha]
  | array _ ih => rw [parseChars_array, parseChars_array, ih]
  | list _ ih => rw [parseChars_list, parseChars_list, ih]
  | dictionary hcomma hk _ ihk ihv =>
    have hcomma' : ',' ∉ _ := fun hc =>
      (hk.mem_or_blank hc).elim hcomma fun hblank => absurd hblank (by decide)
    rw [parseChars_dictionary hcomma, parseChars_dictionary hcomma', ihk, ihv]

/-! ## Main statements -/

/-- The type strings are exactly the texts of the grammar. Each of them spells one type, and blanks
around its parts do not change which. -/
theorem parse_eq_ok_iff_spells :
    (∀ (text : String) (t : TypeExpr), parse text = .ok t ↔ Spells text.toList t) ∧
    (∀ (cs : List Char) (t u : TypeExpr), Spells cs t → Spells cs u → t = u) ∧
    ∀ cs ds : List Char, Respaced cs ds → ∀ t : TypeExpr, Spells cs t ↔ Spells ds t := by
  refine ⟨fun text t => ?_, fun cs t u ht hu => ?_, fun cs ds h t => ?_⟩
  · rw [parse_eq_ok_iff, parseChars_eq_ok_iff]
  · have heq := (parseChars_of_spells ht).symm.trans (parseChars_of_spells hu)
    exact Except.ok.inj heq
  · rw [← parseChars_eq_ok_iff, ← parseChars_eq_ok_iff, h.parseChars_eq]

/-- Blanks around the key and inside the value: both texts spell the same dictionary. -/
theorem spells_spaced_dictionary :
    Respaced "Dictionary<string,enum X[]?>".toList "Dictionary< string ,enum  X[] ?>".toList ∧
    Spells "Dictionary<string,enum X[]?>".toList
      (dictionary false (scalar false .string) (array true (enum false "X"))) ∧
    Spells "Dictionary< string ,enum  X[] ?>".toList
      (dictionary false (scalar false .string) (array true (enum false "X"))) := by
  have hblank : Text.Blanks " ".toList := by decide
  have hkey : Respaced "string".toList " string ".toList := .pad hblank hblank (.refl _)
  have hname : Respaced "enum X".toList "enum  X".toList := .enum hblank Text.blanks_nil "X".toList
  have helem : Respaced "enum X[]".toList "enum  X[] ".toList :=
    .pad Text.blanks_nil hblank (.array hname)
  have hspaced : Respaced "Dictionary<string,enum X[]?>".toList
      "Dictionary< string ,enum  X[] ?>".toList := by
    simpa using Respaced.dictionary (by decide) hkey (.nullable helem)
  have hplain := (parse_eq_ok_iff_spells.1 "Dictionary<string,enum X[]?>"
    (dictionary false (scalar false .string) (array true (enum false "X")))).1 (by decide +kernel)
  exact ⟨hspaced, hplain, (parse_eq_ok_iff_spells.2.2 _ _ hspaced _).1 hplain⟩

/-- The text after `enum ` is not blank, and neither a nullable mark nor brackets end the whole. -/
def LooseEnumText (text : List Char) : Prop :=
  ¬ Text.Blanks text ∧ ¬ "?".toList <:+ "enum ".toList ++ text ∧
    ¬ "[]".toList <:+ "enum ".toList ++ text

instance (text : List Char) : Decidable (LooseEnumText text) :=
  inferInstanceAs (Decidable (_ ∧ _))

/-- If only the very end of the text is looked at, a blank hides the nullable mark before it. Two
types are then spelled by one text, which is read as the nullable one. -/
theorem loose_enum_text_ambiguous :
    SpellsWith LooseEnumText "enum X? ".toList (enum false "X?") ∧
    SpellsWith LooseEnumText "enum X? ".toList (enum true "X") ∧
    parse "enum X? " = .ok (enum true "X") ∧ parse "enum X? " ≠ .ok (enum false "X?") := by
  have hparse : parse "enum X? " = .ok (enum true "X") := by
    decide +kernel
  have hplain : LooseEnumText "X? ".toList := by decide
  have hmarked : LooseEnumText "X".toList := by decide
  have hblank : Text.Blanks " ".toList := by decide
  refine ⟨.enum hplain, .pad Text.blanks_nil hblank (.nullable (.enum hmarked)), hparse, ?_⟩
  rw [hparse]
  decide

end TypeExpr

end Marshal
