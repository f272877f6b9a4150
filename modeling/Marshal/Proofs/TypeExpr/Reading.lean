import Marshal.Proofs.Text.Trim
import Marshal.TypeExpr.Parser

/-!
# What a type string is read as

The rules of `Form.of` overlap, and the first that applies decides. `Form.explains_of` says what is
known of a trimmed text once its form is known. The other way round, a text that is built up by one
of the rules is taken apart by that rule (`Form.of_nullable` to `Form.of_name`), so that reading is
described by one equation for each way to build a type string (`parseChars_nullable` to
`parseChars_name`).
-/

namespace Marshal

namespace TypeExpr

/-! ## Names -/

/-- A text that can name an enum: it is not empty, has no blanks at its ends, and does not end in a
nullable mark or in brackets. -/
structure IsName (cs : List Char) : Prop where
  ne_nil : cs ≠ []
  trimmed : Text.trim cs = cs
  no_mark : ¬ "?".toList <:+ cs
  no_brackets : ¬ "[]".toList <:+ cs

theorem isName_iff {cs : List Char} :
    IsName cs ↔ cs ≠ [] ∧ Text.trim cs = cs ∧ ¬ "?".toList <:+ cs ∧ ¬ "[]".toList <:+ cs :=
  ⟨fun h => ⟨h.ne_nil, h.trimmed, h.no_mark, h.no_brackets⟩,
    fun ⟨hnil, htrim, hmark, hbrackets⟩ => ⟨hnil, htrim, hmark, hbrackets⟩⟩

instance (cs : List Char) : Decidable (IsName cs) :=
  decidable_of_iff _ isName_iff.symm

/-- A text that can name a composite: a name that is no type of another form. -/
structure IsCompositeName (cs : List Char) : Prop extends IsName cs where
  not_keyword : ∀ kind : Scalar, cs ≠ kind.keyword.toList
  ne_enum : cs ≠ "enum".toList
  not_enum : ¬ "enum ".toList <+: cs
  not_dictionary : ¬ "Dictionary<".toList <+: cs
  not_list : ∀ elem : List Char, cs ≠ "List<".toList ++ elem ++ ">".toList

theorem IsName.last_not_blank {cs : List Char} (h : IsName cs) :
    ∀ c, cs.getLast? = some c → Text.isBlank c = false :=
  (Text.trim_eq_self_iff.1 h.trimmed).2

/-! ## From the form to the text -/

namespace Form

theorem enumName?_eq_some {cs name : List Char} :
    enumName? cs = some name ↔ cs = "enum ".toList ++ name ∧ ¬ "[]".toList <:+ name := by
  unfold enumName?
  split
  · next hs =>
    apply iff_of_false (by simp)
    rintro ⟨rfl, -⟩
    exact Text.afterStart?_eq_none.1 hs (List.prefix_append _ _)
  · next text ht =>
    obtain rfl := Text.afterStart?_eq_some.1 ht
    split
    · next hb =>
      obtain ⟨rest, hrest⟩ := Option.isSome_iff_exists.1 hb
      obtain rfl := Text.beforeEnd?_eq_some.1 hrest
      apply iff_of_false (by simp)
      rintro ⟨heq, hno⟩
      exact hno (List.append_cancel_left heq ▸ List.suffix_append _ _)
    · next hb =>
      have hno : ¬ "[]".toList <:+ text :=
        Text.beforeEnd?_eq_none.1 (Option.not_isSome_iff_eq_none.1 hb)
      constructor
      · intro h
        obtain rfl := Option.some.inj h
        exact ⟨rfl, hno⟩
      · rintro ⟨heq, -⟩
        rw [List.append_cancel_left heq]

theorem listElem?_eq_some {cs elem : List Char} :
    listElem? cs = some elem ↔ cs = "List<".toList ++ elem ++ ">".toList := by
  simp only [listElem?, Option.bind_eq_some_iff, Text.afterStart?_eq_some,
    Text.beforeEnd?_eq_some, List.append_assoc]
  constructor
  · rintro ⟨body, hcs, rfl⟩
    exact hcs
  · intro h
    exact ⟨_, h, rfl⟩

/-- What is known of a trimmed text of the given form. -/
def Explains (cs : List Char) : Form → Prop
  | .missing => cs = [] ∨ cs = "enum".toList
  | .nullable rest => cs = rest ++ "?".toList
  | .scalar kind => cs = kind.keyword.toList
  | .enum name => ∃ text, cs = "enum ".toList ++ text ∧ Text.trim text = name ∧ IsName name
  | .array elem => cs = elem ++ "[]".toList
  | .list elem => cs = "List<".toList ++ elem ++ ">".toList
  | .dictionary key value =>
    cs = "Dictionary<".toList ++ key ++ ",".toList ++ value ++ ">".toList ∧ ',' ∉ key
  | .noComma => ∃ body, cs = "Dictionary<".toList ++ body ∧ ',' ∉ body
  | .noClosing => ∃ key rest, cs = "Dictionary<".toList ++ key ++ ",".toList ++ rest ∧ ',' ∉ key ∧
      ¬ ">".toList <:+ rest
  | .composite => IsCompositeName cs

theorem explains_ofDictionary (body : List Char) :
    (ofDictionary body).Explains ("Dictionary<".toList ++ body) := by
  unfold ofDictionary
  split
  · next hs => exact ⟨body, rfl, Text.splitFirst?_eq_none.1 hs⟩
  · next key rest hs =>
    obtain ⟨rfl, hkey⟩ := Text.splitFirst?_eq_some.1 hs
    split
    · next hv => exact ⟨key, rest, by simp, hkey, Text.beforeEnd?_eq_none.1 hv⟩
    · next value hv =>
      obtain rfl := Text.beforeEnd?_eq_some.1 hv
      exact ⟨by simp, hkey⟩

/-- What stands after `enum ` in a trimmed text is a name with blanks before it. -/
theorem isName_trim {text : List Char}
    (htrim : Text.trim ("enum ".toList ++ text) = "enum ".toList ++ text)
    (hmark : ¬ "?".toList <:+ "enum ".toList ++ text) (hbrackets : ¬ "[]".toList <:+ text) :
    IsName (Text.trim text) := by
  have hne : text ≠ [] := by
    rintro rfl
    revert htrim
    decide
  have hlast : ∀ c, text.getLast? = some c → Text.isBlank c = false := by
    intro c hc
    apply (Text.trim_eq_self_iff.1 htrim).2 c
    rw [List.getLast?_append_of_ne_nil _ hne, hc]
  have hsuffix := Text.trim_isSuffix hlast
  refine ⟨fun hnil => ?_, Text.trim_trim text, fun h => ?_, fun h => ?_⟩
  · have hmem := List.getLast_mem hne
    have hblank := Text.trim_eq_nil_iff.1 hnil _ hmem
    rw [hlast _ (List.getLast?_eq_some_getLast hne)] at hblank
    cases hblank
  · exact hmark (h.trans (hsuffix.trans (List.suffix_append _ _)))
  · exact hbrackets (h.trans hsuffix)

theorem explains_of {cs : List Char} (htrim : Text.trim cs = cs) : (of cs).Explains cs := by
  unfold of
  split
  · next hnil => exact .inl hnil
  next hnil =>
  split
  · next rest hr => exact Text.beforeEnd?_eq_some.1 hr
  next hmark =>
  replace hmark := Text.beforeEnd?_eq_none.1 (Option.eq_none_iff_forall_ne_some.2 hmark)
  split
  · next kind hk =>
    have hword := Scalar.ofKeyword?_eq_some.1 hk
    rw [Explains, hword, String.toList_ofList]
  next hkeyword =>
  replace hkeyword : ∀ kind : Scalar, cs ≠ kind.keyword.toList := by
    rintro kind rfl
    exact hkeyword kind (Scalar.ofKeyword?_eq_some.2 String.ofList_toList.symm)
  split
  · next he => exact .inr he
  next henum =>
  split
  · next text ht =>
    obtain ⟨rfl, hbrackets⟩ := enumName?_eq_some.1 ht
    have hname := isName_trim htrim hmark hbrackets
    rw [if_neg hname.ne_nil]
    exact ⟨text, rfl, rfl, hname⟩
  next hname =>
  split
  · next elem he => exact Text.beforeEnd?_eq_some.1 he
  next hbrackets =>
  replace hbrackets := Text.beforeEnd?_eq_none.1 (Option.eq_none_iff_forall_ne_some.2 hbrackets)
  split
  · next elem he => exact listElem?_eq_some.1 he
  next hlist =>
  split
  · next body hb =>
    obtain rfl := Text.afterStart?_eq_some.1 hb
    exact explains_ofDictionary body
  next hdict =>
  refine ⟨⟨hnil, htrim, hmark, hbrackets⟩, hkeyword, henum, ?_,
    Text.afterStart?_eq_none.1 (Option.eq_none_iff_forall_ne_some.2 hdict), ?_⟩
  · rintro ⟨text, rfl⟩
    exact hname text
      (enumName?_eq_some.2 ⟨rfl, fun h => hbrackets (h.trans (List.suffix_append _ _))⟩)
  · rintro elem rfl
    exact hlist elem (listElem?_eq_some.2 rfl)

end Form

/-! ## From the text to the form -/

theorem isLower_of_mem_keyword (kind : Scalar) : ∀ c ∈ kind.keyword.toList, c.isLower = true := by
  have hall : kind.keyword.toList.all Char.isLower = true := by
    cases kind <;> decide
  exact List.all_eq_true.1 hall

theorem trim_keyword (kind : Scalar) : Text.trim kind.keyword.toList = kind.keyword.toList := by
  cases kind <;> decide

namespace Form

/-- A mark does not end a text that ends in another character. -/
theorem beforeEnd?_append_eq_none {mark tail : List Char} (cs : List Char) (hmark : mark ≠ [])
    (htail : tail ≠ []) (hne : mark.getLast? ≠ tail.getLast?) :
    Text.beforeEnd? mark (cs ++ tail) = none := by
  apply Text.beforeEnd?_eq_none.2
  rintro ⟨rest, h⟩
  apply hne
  rw [← List.getLast?_append_of_ne_nil rest hmark, h, List.getLast?_append_of_ne_nil cs htail]

theorem ofKeyword?_of_mem {cs : List Char} {c : Char} (hc : c ∈ cs) (hlower : c.isLower = false) :
    Scalar.ofKeyword? (String.ofList cs) = none := by
  apply Scalar.ofKeyword?_eq_none.2
  intro kind hkind
  have hmem := isLower_of_mem_keyword kind c (by rwa [hkind, String.toList_ofList])
  rw [hlower] at hmem
  cases hmem

theorem of_nullable (rest : List Char) : of (rest ++ "?".toList) = .nullable rest := by
  have hmark : Text.beforeEnd? "?".toList (rest ++ "?".toList) = some rest :=
    Text.beforeEnd?_eq_some.2 rfl
  rw [of, if_neg (by simp), hmark]

theorem of_keyword (kind : Scalar) : of kind.keyword.toList = .scalar kind := by
  cases kind <;> decide

theorem brackets_isSuffix {p cs : List Char} (hp : '[' ∉ p) (h : "[]".toList <:+ p ++ cs) :
    "[]".toList <:+ cs := by
  obtain ⟨rest, hrest⟩ := h
  rcases List.append_eq_append_iff.1 hrest with ⟨mid, rfl, hmid⟩ | ⟨mid, -, rfl⟩
  · cases mid with
    | nil => exact ⟨[], hmid⟩
    | cons c mid =>
      have hc : ['[', ']'] = c :: (mid ++ cs) := hmid
      obtain ⟨rfl, -⟩ := List.cons.inj hc
      simp at hp
  · exact ⟨mid, rfl⟩

theorem of_enum {before name : List Char} (hb : Text.Blanks before) (hname : IsName name) :
    of ("enum ".toList ++ (before ++ name)) = .enum name := by
  have hmark : Text.beforeEnd? "?".toList ("enum ".toList ++ (before ++ name)) = none := by
    refine Text.beforeEnd?_eq_none.2 fun h => hname.no_mark ?_
    rw [← List.append_assoc] at h
    exact List.suffix_of_suffix_length_le h (List.suffix_append _ _)
      (List.length_pos_iff.2 hname.ne_nil)
  have hkeyword : Scalar.ofKeyword? (String.ofList ("enum ".toList ++ (before ++ name))) = none :=
    ofKeyword?_of_mem (c := ' ') (by simp) (by decide)
  have henum : "enum ".toList ++ (before ++ name) ≠ "enum".toList := fun h => by
    simpa using congrArg List.length h
  have htext : enumName? ("enum ".toList ++ (before ++ name)) = some (before ++ name) := by
    refine enumName?_eq_some.2 ⟨rfl, fun h => hname.no_brackets (brackets_isSuffix ?_ h)⟩
    exact fun hmem => absurd (hb _ hmem) (by decide)
  rw [of, if_neg (by simp), hmark, hkeyword, if_neg henum, htext]
  simp only [Text.trim_blanks_append hb, hname.trimmed, if_neg hname.ne_nil]

theorem of_array (elem : List Char) : of (elem ++ "[]".toList) = .array elem := by
  have hmark : Text.beforeEnd? "?".toList (elem ++ "[]".toList) = none :=
    beforeEnd?_append_eq_none elem (by decide) (by decide) (by decide)
  have hkeyword : Scalar.ofKeyword? (String.ofList (elem ++ "[]".toList)) = none :=
    ofKeyword?_of_mem (c := ']') (by simp) (by decide)
  have henum : elem ++ "[]".toList ≠ "enum".toList := fun h => by
    simpa using congrArg List.getLast? h
  have hname : enumName? (elem ++ "[]".toList) = none := by
    apply Option.eq_none_iff_forall_ne_some.2
    intro name h
    obtain ⟨hname, hno⟩ := enumName?_eq_some.1 h
    exact hno (brackets_isSuffix (by decide) ⟨elem, hname⟩)
  have hb : Text.beforeEnd? "[]".toList (elem ++ "[]".toList) = some elem :=
    Text.beforeEnd?_eq_some.2 rfl
  rw [of, if_neg (by simp), hmark, hkeyword, if_neg henum, hname, hb]

/-- A text that ends in `>` and does not begin like an enum is a list, a dictionary or a name. -/
theorem of_closing {cs : List Char} (hstart : ¬ "enum ".toList <+: cs ++ ">".toList) :
    of (cs ++ ">".toList) =
      match listElem? (cs ++ ">".toList) with
      | some elem => .list elem
      | none =>
        match Text.afterStart? "Dictionary<".toList (cs ++ ">".toList) with
        | some body => ofDictionary body
        | none => .composite := by
  have hmark : Text.beforeEnd? "?".toList (cs ++ ">".toList) = none :=
    beforeEnd?_append_eq_none cs (by decide) (by decide) (by decide)
  have hkeyword : Scalar.ofKeyword? (String.ofList (cs ++ ">".toList)) = none :=
    ofKeyword?_of_mem (c := '>') (by simp) (by decide)
  have henum : cs ++ ">".toList ≠ "enum".toList := fun h => by
    simpa using congrArg List.getLast? h
  have hname : enumName? (cs ++ ">".toList) = none := by
    rw [enumName?, Text.afterStart?_eq_none.2 hstart]
  have hbrackets : Text.beforeEnd? "[]".toList (cs ++ ">".toList) = none :=
    beforeEnd?_append_eq_none cs (by decide) (by decide) (by decide)
  rw [of, if_neg (by simp), hmark, hkeyword, if_neg henum, hname, hbrackets]
  cases listElem? (cs ++ ">".toList) with
  | some elem => rfl
  | none => cases Text.afterStart? "Dictionary<".toList (cs ++ ">".toList) <;> rfl

theorem of_list (elem : List Char) : of ("List<".toList ++ elem ++ ">".toList) = .list elem := by
  rw [of_closing (by simp), listElem?_eq_some.2 rfl]

theorem of_dictionary {key : List Char} (hkey : ',' ∉ key) (value : List Char) :
    of ("Dictionary<".toList ++ key ++ ",".toList ++ value ++ ">".toList) =
      .dictionary key value := by
  have hlist :
      listElem? ("Dictionary<".toList ++ key ++ ",".toList ++ value ++ ">".toList) = none :=
    Option.eq_none_iff_forall_ne_some.2 fun elem h => by simpa using listElem?_eq_some.1 h
  have hbody : Text.afterStart? "Dictionary<".toList
      ("Dictionary<".toList ++ key ++ ",".toList ++ value ++ ">".toList) =
        some (key ++ ',' :: (value ++ ">".toList)) :=
    Text.afterStart?_eq_some.2 (by simp)
  have hsplit : Text.splitFirst? ',' (key ++ ',' :: (value ++ ">".toList)) =
      some (key, value ++ ">".toList) := Text.splitFirst?_eq_some.2 ⟨rfl, hkey⟩
  have hclose : Text.beforeEnd? ">".toList (value ++ ">".toList) = some value :=
    Text.beforeEnd?_eq_some.2 rfl
  rw [of_closing (by simp), hlist, hbody]
  simp only [ofDictionary, hsplit, hclose]

theorem of_name {cs : List Char} (h : IsCompositeName cs) : of cs = .composite := by
  have hkeyword : Scalar.ofKeyword? (String.ofList cs) = none :=
    Scalar.ofKeyword?_eq_none.2 fun kind hkind =>
      h.not_keyword kind (by rw [hkind, String.toList_ofList])
  have hname : enumName? cs = none := by
    rw [enumName?, Text.afterStart?_eq_none.2 h.not_enum]
  have hlist : listElem? cs = none :=
    Option.eq_none_iff_forall_ne_some.2 fun elem he => h.not_list elem (listElem?_eq_some.1 he)
  rw [of, if_neg h.ne_nil, Text.beforeEnd?_eq_none.2 h.no_mark, hkeyword, if_neg h.ne_enum, hname,
    Text.beforeEnd?_eq_none.2 h.no_brackets, hlist, Text.afterStart?_eq_none.2 h.not_dictionary]

end Form

theorem isCompositeName_iff {cs : List Char} :
    IsCompositeName cs ↔ Text.trim cs = cs ∧ Form.of cs = .composite := by
  refine ⟨fun h => ⟨h.trimmed, Form.of_name h⟩, fun ⟨htrim, hform⟩ => ?_⟩
  have hexplains := Form.explains_of htrim
  rwa [hform] at hexplains

instance (cs : List Char) : Decidable (IsCompositeName cs) :=
  decidable_of_iff _ isCompositeName_iff.symm

/-! ## Reading -/

theorem parseChars_eq (cs : List Char) :
    parseChars cs =
      match Form.of (Text.trim cs) with
      | .missing => .error .missing
      | .noComma => .error .noComma
      | .noClosing => .error .noClosing
      | .scalar kind => .ok (.scalar false kind)
      | .enum name => .ok (.enum false (String.ofList name))
      | .composite => .ok (.composite false (String.ofList (Text.trim cs)))
      | .nullable rest => (parseChars rest).map (withNullable true)
      | .array elem => (parseChars elem).map (array false)
      | .list elem => (parseChars elem).map (list false)
      | .dictionary key value =>
        (parseChars key).bind fun k => (parseChars value).map (dictionary false k) := by
  rw [parseChars]
  split
  case h_10 key value h =>
    rw [h]
    dsimp only
    cases parseChars key <;> rfl
  all_goals simp only [*]

/-- Texts that are the same once trimmed are read alike. -/
theorem parseChars_congr {cs ds : List Char} (h : Text.trim cs = Text.trim ds) :
    parseChars cs = parseChars ds := by
  rw [parseChars_eq, parseChars_eq ds, h]

theorem parseChars_pad {before after : List Char} (hb : Text.Blanks before)
    (ha : Text.Blanks after) (cs : List Char) :
    parseChars (before ++ cs ++ after) = parseChars cs :=
  parseChars_congr (Text.trim_pad hb ha cs)

theorem parseChars_dropWhile (cs : List Char) :
    parseChars (cs.dropWhile Text.isBlank) = parseChars cs :=
  parseChars_congr (Text.trim_dropWhile cs)

theorem parseChars_nullable (rest : List Char) :
    parseChars (rest ++ "?".toList) = (parseChars rest).map (withNullable true) := by
  rw [parseChars_eq, Text.trim_append_of_trimmed (by decide) (by decide), Form.of_nullable]
  show (parseChars (rest.dropWhile Text.isBlank)).map (withNullable true) = _
  rw [parseChars_dropWhile]

theorem parseChars_keyword (kind : Scalar) :
    parseChars kind.keyword.toList = .ok (scalar false kind) := by
  rw [parseChars_eq, trim_keyword, Form.of_keyword]

theorem parseChars_enum {text : List Char} (h : IsName (Text.trim text)) :
    parseChars ("enum ".toList ++ text) = .ok (enum false (String.ofList (Text.trim text))) := by
  obtain ⟨before, after, hb, ha, htext⟩ := Text.exists_eq_pad text
  generalize hname : Text.trim text = name at h htext
  have htrim : Text.trim ("enum ".toList ++ (before ++ name)) =
      "enum ".toList ++ (before ++ name) := by
    refine Text.trim_eq_self_iff.2 ⟨?_, fun c hc => h.last_not_blank c ?_⟩
    · simp
      decide
    · rwa [← List.append_assoc, List.getLast?_append_of_ne_nil _ h.ne_nil] at hc
  rw [htext, ← List.append_assoc, parseChars_eq, Text.trim_append_blanks ha, htrim,
    Form.of_enum hb h]

theorem parseChars_array (elem : List Char) :
    parseChars (elem ++ "[]".toList) = (parseChars elem).map (array false) := by
  rw [parseChars_eq, Text.trim_append_of_trimmed (by decide) (by decide), Form.of_array]
  show (parseChars (elem.dropWhile Text.isBlank)).map (array false) = _
  rw [parseChars_dropWhile]

theorem trim_closing {cs : List Char} (h : ∀ c, cs.head? = some c → Text.isBlank c = false) :
    Text.trim (cs ++ ">".toList) = cs ++ ">".toList := by
  refine Text.trim_eq_self_iff.2 ⟨fun c hc => ?_, ?_⟩
  · cases cs with
    | nil =>
      obtain rfl := Option.some.inj hc
      decide
    | cons d rest => exact h c hc
  · simp
    decide

theorem parseChars_list (elem : List Char) :
    parseChars ("List<".toList ++ elem ++ ">".toList) = (parseChars elem).map (list false) := by
  rw [parseChars_eq, trim_closing (by simp; decide), Form.of_list]

theorem parseChars_dictionary {key : List Char} (hkey : ',' ∉ key) (value : List Char) :
    parseChars ("Dictionary<".toList ++ key ++ ",".toList ++ value ++ ">".toList) =
      (parseChars key).bind fun k => (parseChars value).map (dictionary false k) := by
  rw [parseChars_eq, trim_closing (by simp; decide), Form.of_dictionary hkey]

theorem parseChars_name {cs : List Char} (h : IsCompositeName cs) :
    parseChars cs = .ok (composite false (String.ofList cs)) := by
  rw [parseChars_eq, h.trimmed, Form.of_name h]

end TypeExpr

end Marshal
