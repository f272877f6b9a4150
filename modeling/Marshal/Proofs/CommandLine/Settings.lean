import Marshal.CommandLine.Arguments
import Marshal.Proofs.Outcome

/-!
# Settings as arguments

An argument is a setting if the text before its first `=` is one of four keys and, for `gen`, the
rest is the name of a direction (`Setting.parse_eq_ok_iff`). Every setting has such a text, so a
reader that takes settings can be given every list of them
(`ArgumentReader.TakesSettings.map_text`). The reader of the library is one
(`takesSettings_readArguments`).
-/

namespace Marshal

namespace CommandLine

namespace Setting

/-! ## Which texts are settings -/

/-- The settings that a key and a value stand for. Any value will do, except for a direction. -/
inductive Written : String → String → Setting → Prop where
  | fromJson : Written "gen" "from" (.direction .fromJson)
  | toJson : Written "gen" "to" (.direction .toJson)
  | namespaceName (value : String) : Written "namespace" value (.namespaceName value)
  | usingName (value : String) : Written "using" value (.usingName value)
  | className (value : String) : Written "class" value (.className value)

theorem written_key_value (s : Setting) : Written s.key s.value s := by
  cases s with
  | direction d =>
    cases d with
    | fromJson => exact .fromJson
    | toJson => exact .toJson
  | namespaceName name => exact .namespaceName name
  | usingName name => exact .usingName name
  | className name => exact .className name

theorem ofKeyValue_eq_ok_iff {key value : String} {s : Setting} :
    ofKeyValue key value = .ok s ↔ Written key value s := by
  constructor
  · intro h
    unfold ofKeyValue at h
    split at h
    · next hkey =>
      split at h
      · next d hd =>
        obtain rfl := Except.ok.inj h
        rw [hkey, Direction.parse_eq_ok.1 hd]
        exact written_key_value (.direction d)
      · cases h
    split at h
    · next hkey =>
      obtain rfl := Except.ok.inj h
      exact hkey ▸ .namespaceName value
    split at h
    · next hkey =>
      obtain rfl := Except.ok.inj h
      exact hkey ▸ .usingName value
    split at h
    · next hkey =>
      obtain rfl := Except.ok.inj h
      exact hkey ▸ .className value
    · cases h
  · intro h
    cases h <;> simp [ofKeyValue, Direction.parse]

/-- A value may have further `=` in it. -/
theorem parse_eq_ok_iff {text : String} {s : Setting} :
    parse text = .ok s ↔
      ∃ key value, text = key ++ "=" ++ value ∧ '=' ∉ key.toList ∧ Written key value s := by
  rw [parse]
  constructor
  · intro h
    split at h
    · cases h
    · next key value hsplit =>
      obtain ⟨htext, hkey⟩ := Text.splitFirst?_eq_some.1 hsplit
      refine ⟨String.ofList key, String.ofList value, ?_, by rwa [String.toList_ofList],
        ofKeyValue_eq_ok_iff.1 h⟩
      apply String.toList_injective
      simp [htext]
  · rintro ⟨key, value, rfl, hkey, h⟩
    have hsplit : Text.splitFirst? '=' (key ++ "=" ++ value).toList =
        some (key.toList, value.toList) := Text.splitFirst?_eq_some.2 ⟨by simp, hkey⟩
    simp only [hsplit, String.ofList_toList]
    exact ofKeyValue_eq_ok_iff.2 h

/-! ## The argument that gives a setting -/

def text (s : Setting) : String :=
  s.key ++ "=" ++ s.value

theorem parse_text (s : Setting) : parse s.text = .ok s := by
  refine parse_eq_ok_iff.2 ⟨s.key, s.value, rfl, ?_, written_key_value s⟩
  cases s <;> simp [key]

theorem head?_text (s : Setting) : s.text.toList.head? ≠ some '-' := by
  cases s <;> simp [text, key]

end Setting

/-! ## Lists of settings -/

theorem mapM_parse_map_text (settings : List Setting) :
    (settings.map Setting.text).mapM Setting.parse = .ok settings := by
  refine Outcome.mapM_eq_ok_iff.2 (List.forall₂_map_left_iff.2 ?_)
  exact List.forall₂_same.2 fun s _ => s.parse_text

/-- Every list of settings can be given as arguments. -/
theorem ArgumentReader.TakesSettings.map_text {readArguments : ArgumentReader}
    (h : readArguments.TakesSettings) (settings : List Setting) :
    readArguments (settings.map Setting.text) = .ok settings :=
  h _ _ (List.forall_mem_map.2 fun s _ => s.head?_text) (mapM_parse_map_text settings)

theorem optionRefusal?_eq_none {argument : String} (h : argument.toList.head? ≠ some '-') :
    optionRefusal? argument = none := by
  unfold optionRefusal?
  split
  case h_6 => rfl
  all_goals simp_all

theorem parseArguments_of_mapM {arguments : List String} {settings : List Setting}
    (h : arguments.mapM Setting.parse = .ok settings)
    (hplain : ∀ argument ∈ arguments, argument.toList.head? ≠ some '-') :
    parseArguments arguments = .ok settings := by
  have hpairs := Outcome.mapM_eq_ok_iff.1 h
  clear h
  induction hpairs with
  | nil => rfl
  | @cons argument s rest settings hs _ ih =>
    obtain ⟨hargument, hrest⟩ := List.forall_mem_cons.1 hplain
    have hdashes : argument ≠ "--" := fun h => hargument (by rw [h]; decide)
    rw [parseArguments, if_neg hdashes, optionRefusal?_eq_none hargument, setting, hs, ih hrest]
    rfl

theorem takesSettings_readArguments : readArguments.TakesSettings := by
  intro arguments settings hplain h
  rw [readArguments, parseArguments_of_mapM h hplain]
  rfl

end CommandLine

end Marshal
