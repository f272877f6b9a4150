import Mathlib.Data.List.Induction
import Marshal.Proofs.CommandLine.Settings

/-!
# What settings say

A list of settings is looked at by key: of the settings with one key the last counts, or all of them
for `using` (`Choices.Follows`). One more setting keeps this, so it holds of the choices that any
list of settings adds up to, and of no others. Main statement: the configuration is the one that
follows the settings, so it does not matter how settings with different keys are interleaved
(`settings_determine_config`).
-/

namespace Marshal

namespace CommandLine

/-! ## Settings by key -/

/-- The settings with one key, in the order in which they are given. -/
def withKey (key : String) (settings : List Setting) : List Setting :=
  settings.filter fun s => s.key = key

theorem withKey_concat (key : String) (settings : List Setting) (s : Setting) :
    withKey key (settings ++ [s]) = withKey key settings ++ if s.key = key then [s] else [] := by
  simp [withKey, List.filter_append, List.filter_singleton]

theorem withKey_gen_eq_nil_iff {settings : List Setting} :
    withKey "gen" settings = [] ↔ ∀ d, .direction d ∉ settings := by
  rw [withKey, List.filter_eq_nil_iff]
  constructor
  · intro h d hd
    exact h _ hd (by simp [Setting.key])
  · intro h s hs
    cases s with
    | direction d => exact absurd hs (h d)
    | namespaceName | usingName | className => simp [Setting.key]

/-! ## Choices -/

namespace Choices

/-- What is chosen is what the settings say: of those with one key the last counts, except that all
imported namespaces do. -/
structure Follows (c : Choices) (settings : List Setting) : Prop where
  direction : c.direction.map Setting.direction = (withKey "gen" settings).getLast?
  namespaceName : c.options.namespaceName =
    ((withKey "namespace" settings).getLast?.map Setting.value).getD "jonson.autogen"
  usings : c.options.usings = (withKey "using" settings).map Setting.value
  className : c.options.className = (withKey "class" settings).getLast?.map Setting.value

variable {c c' : Choices} {settings settings' : List Setting}

theorem follows_nil : Follows {} [] :=
  ⟨rfl, rfl, rfl, rfl⟩

/-- A setting takes the place of the last one with its key, or is added to those with its key. What
settings with other keys say stays as it is. -/
theorem Follows.add (h : c.Follows settings) (s : Setting) :
    (c.add s).Follows (settings ++ [s]) := by
  obtain ⟨hdirection, hnamespace, husings, hclass⟩ := h
  cases s with
  | direction d =>
    constructor <;> simp [withKey_concat, Choices.add, Setting.key, *]
  | namespaceName name =>
    constructor <;> simp [withKey_concat, Choices.add, Setting.key, Setting.value, *]
  | usingName name =>
    constructor <;>
      simp [withKey_concat, Choices.add, Options.addUsings, Setting.key, Setting.value, *]
  | className name =>
    constructor <;>
      simp [withKey_concat, Choices.add, Options.withClassName, Setting.key, Setting.value, *]

theorem follows_ofSettings (settings : List Setting) : (ofSettings settings).Follows settings := by
  induction settings using List.reverseRecOn with
  | nil => exact follows_nil
  | append_singleton settings s ih =>
    rw [ofSettings, List.foldl_concat]
    exact ih.add s

theorem Follows.unique (h : c.Follows settings) (h' : c'.Follows settings) : c = c' := by
  obtain ⟨d, ⟨name, usings, className⟩⟩ := c
  obtain ⟨d', ⟨name', usings', className'⟩⟩ := c'
  have hinj : Function.Injective Setting.direction := fun _ _ => Setting.direction.inj
  have hd : d = d' := Option.map_injective hinj (h.direction.trans h'.direction.symm)
  have hname : name = name' := h.namespaceName.trans h'.namespaceName.symm
  have husings : usings = usings' := h.usings.trans h'.usings.symm
  have hclass : className = className' := h.className.trans h'.className.symm
  rw [hd, hname, husings, hclass]

theorem Follows.congr (h : c.Follows settings)
    (hkeys : ∀ key, withKey key settings = withKey key settings') : c.Follows settings' := by
  constructor <;> simp only [← hkeys, h.direction, h.namespaceName, h.usings, h.className]

/-- Only the order of settings with the same key matters. -/
theorem ofSettings_congr (hkeys : ∀ key, withKey key settings = withKey key settings') :
    ofSettings settings = ofSettings settings' :=
  ((follows_ofSettings settings).congr hkeys).unique (follows_ofSettings settings')

end Choices

/-! ## Configurations -/

namespace Config

variable {config : Config} {settings : List Setting}

/-- The choices of a configuration, of which the direction is known. -/
def choices (config : Config) : Choices :=
  ⟨some config.direction, config.options⟩

theorem ofSettings?_eq_none_iff : ofSettings? settings = none ↔ ∀ d, .direction d ∉ settings := by
  rw [ofSettings?, Option.map_eq_none_iff, ← withKey_gen_eq_nil_iff, ← List.getLast?_eq_none_iff,
    ← (Choices.follows_ofSettings settings).direction, Option.map_eq_none_iff]

theorem ofSettings?_eq_some_iff :
    ofSettings? settings = some config ↔ config.choices.Follows settings := by
  have hfollows := Choices.follows_ofSettings settings
  constructor
  · intro h
    obtain ⟨d, hd, rfl⟩ := Option.map_eq_some_iff.1 h
    rw [choices, ← hd]
    exact hfollows
  · intro h
    rw [ofSettings?, ← h.unique hfollows]
    rfl

end Config

/-! ## Main statement -/

/-- An argument is a setting exactly if the text before its first `=` is `namespace`, `using` or
`class`, with any value, or `gen`, with the name of a direction as its value. Settings have no
configuration exactly if none of them is a direction; otherwise they have the one that follows them.
Two lists in which the settings with each key are the same, in the same order, have the same
configuration. -/
theorem settings_determine_config :
    (∀ (text : String) (s : Setting), Setting.parse text = .ok s ↔
      ∃ key value, text = key ++ "=" ++ value ∧ '=' ∉ key.toList ∧ Setting.Written key value s) ∧
    (∀ settings : List Setting,
      Config.ofSettings? settings = none ↔ ∀ d, .direction d ∉ settings) ∧
    (∀ (settings : List Setting) (config : Config),
      Config.ofSettings? settings = some config ↔ config.choices.Follows settings) ∧
    ∀ settings settings' : List Setting,
      (∀ key, withKey key settings = withKey key settings') →
        Config.ofSettings? settings = Config.ofSettings? settings' := by
  refine ⟨fun text s => Setting.parse_eq_ok_iff, fun settings => Config.ofSettings?_eq_none_iff,
    fun settings config => Config.ofSettings?_eq_some_iff, fun settings settings' hkeys => ?_⟩
  rw [Config.ofSettings?, Config.ofSettings?, Choices.ofSettings_congr hkeys]

/-- A value that has an `=` in it, and settings of three keys, which are then put into another
order: of the namespaces, the second stays behind the first. -/
theorem config_of_interleaved_settings :
    Setting.parse "namespace=y=z" = .ok (.namespaceName "y=z") ∧
    Config.ofSettings? [.namespaceName "x", .usingName "a", .direction .toJson,
        .namespaceName "y=z"] =
      some ⟨.toJson, { namespaceName := "y=z", usings := ["a"] }⟩ ∧
    Config.ofSettings? [.direction .toJson, .namespaceName "x", .namespaceName "y=z",
        .usingName "a"] =
      some ⟨.toJson, { namespaceName := "y=z", usings := ["a"] }⟩ := by
  obtain ⟨hparse, -, hconfig, hreordered⟩ := settings_determine_config
  have hsetting : Setting.parse "namespace=y=z" = .ok (.namespaceName "y=z") :=
    (hparse _ _).2 ⟨"namespace", "y=z", by decide, by decide, .namespaceName "y=z"⟩
  have hkeys : ∀ key, withKey key [.namespaceName "x", .usingName "a", .direction .toJson,
        .namespaceName "y=z"] =
      withKey key [.direction .toJson, .namespaceName "x", .namespaceName "y=z",
        .usingName "a"] := by
    intro key
    simp only [withKey, Setting.key]
    grind
  have hfollows := (hconfig
    [.namespaceName "x", .usingName "a", .direction .toJson, .namespaceName "y=z"]
    ⟨.toJson, { namespaceName := "y=z", usings := ["a"] }⟩).2 (by constructor <;> decide)
  exact ⟨hsetting, hfollows, hreordered _ _ hkeys ▸ hfollows⟩

end CommandLine

end Marshal
