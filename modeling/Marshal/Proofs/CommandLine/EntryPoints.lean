import Marshal.Proofs.CommandLine.Configuration
import Marshal.Proofs.Rendering

/-!
# The program and the library

The program puts the stages of the library together on its own, and reports their failures in its
own words. Main statement: with any reader of documents, and with lawful reports, a run ends as the
library does on the text of the input, and what it prints starts with `ERROR: ` exactly if it ends
with 1 (`run_shows_generateFromText`).
-/

namespace Marshal

/-! ## The beginning of generated code -/

theorem exists_render_unitOf (direction : Direction) (options : Options)
    (methods : List Code.Method) :
    ∃ rest, (unitOf direction options methods).render =
      "using System.Collections.Generic;" ++ rest := by
  have hheader : ∃ rest,
      headerText direction options = "using System.Collections.Generic;" ++ rest := by
    refine ⟨"\nusing System.Globalization;\n"
      ++ String.join (options.usings.map fun name => "using " ++ name ++ ";\n") ++ "\n"
      ++ "namespace " ++ options.namespaceName ++ " \x7b\n"
      ++ "    " ++ Conversion.modifiers ++ " class " ++ options.classNameFor direction
      ++ " \x7b\n", ?_⟩
    apply String.toList_inj.1
    simp [headerText, Options.allUsings, Options.baseUsings]
  obtain ⟨rest, hrest⟩ := hheader
  rw [render_unitOf, hrest, String.append_assoc]
  exact ⟨_, rfl⟩

/-- Code starts with the first using, whatever the schema and the options are. -/
theorem exists_generateFromText_eq {ε : Type} {reader : DocumentReader ε} {text code : String}
    {direction : Direction} {options : Options}
    (h : generateFromText reader text direction options = .ok code) :
    ∃ rest, code = "using System.Collections.Generic;" ++ rest := by
  obtain ⟨document, hdocument⟩ : ∃ document, generate document direction options = .ok code := by
    rw [generateFromText] at h
    split at h
    · cases h
    · next document _ =>
      split at h
      · cases h
      · next hcode => exact ⟨document, hcode.trans (congrArg _ (Except.ok.inj h))⟩
  obtain ⟨s, -, hcode⟩ := Outcome.bind_eq_ok_iff.1 hdocument
  rw [Schema.generate_eq_map] at hcode
  obtain ⟨methods, -, rfl⟩ := Outcome.map_eq_ok_iff.1 hcode
  exact exists_render_unitOf direction options methods

namespace CommandLine

/-! ## Endings -/

/-- The exit code, and what is printed on standard output. -/
def Ending.seen (e : Ending) : UInt8 × String :=
  (e.exitCode, e.output)

/-- Whether the exit code is 1 can be told from the output. -/
def Ending.Tells (e : Ending) : Prop :=
  (∃ rest, e.output = "ERROR: " ++ rest) ↔ e.exitCode = 1

theorem Ending.tells_failure (line : String) : (failure line).Tells :=
  iff_of_true ⟨line ++ "\n", String.append_assoc ..⟩ rfl

theorem Ending.tells_success {code : String}
    (h : ∃ rest, code = "using System.Collections.Generic;" ++ rest) : (success code).Tells := by
  obtain ⟨rest, rfl⟩ := h
  refine iff_of_false ?_ (by simp [success])
  rintro ⟨more, hmore⟩
  simpa [success] using congrArg (fun text => text.toList.head?) hmore

/-- How the program shows what the library gives for a text. No other failures of the library are
shown. -/
inductive Shows {ε : Type} (reader : DocumentReader ε) :
    Except (GenerateError ε) String → UInt8 × String → Prop where
  | code (code : String) : Shows reader (.ok code) (0, code ++ "\n")
  | schema (e : SchemaError) :
    Shows reader (.error (.schema e)) (1, "ERROR: " ++ e.kind ++ "\n")
  | json (e : ε) : Shows reader (.error (.json e)) (1, "ERROR: " ++ reader.message e ++ "\n")

/-! ## Runs -/

section

variable {ε ρ : Type} {reader : DocumentReader ε} {reporter : Reporter ε ρ}

theorem Reporter.Lawful.errorLine_ofText (h : reporter.Lawful reader) (text : String) :
    errorLine reporter (reporter.ofText text) = text := by
  rw [errorLine, h.schemaError?_ofText]
  exact h.line_ofText text

theorem Reporter.Lawful.errorLine_schema (h : reporter.Lawful reader) (e : SchemaError) :
    errorLine reporter (reporter.ofCause (.schema e)) = e.kind := by
  rw [errorLine, h.schemaError?_ofCause, Cause.schemaError?]

theorem Reporter.Lawful.errorLine_json (h : reporter.Lawful reader) (e : ε) :
    errorLine reporter (reporter.ofCause (.json e)) = reader.message e := by
  rw [errorLine, h.schemaError?_ofCause, Cause.schemaError?]
  exact h.line_ofCause (.json e)

/-- The error is told behind the context. -/
theorem Reporter.Lawful.errorLine_within_notUtf8 (h : reporter.Lawful reader) (context : String) :
    errorLine reporter (reporter.within context (reporter.ofCause .notUtf8)) =
      context ++ ": stream did not contain valid UTF-8" := by
  rw [errorLine, h.schemaError?_within, h.schemaError?_ofCause, Cause.schemaError?]
  dsimp only
  rw [h.line_within, h.line_ofCause, String.append_assoc]
  rfl

theorem run_of_ofSettings?_eq_none (h : reporter.Lawful reader) {settings : List Setting}
    (hnone : Config.ofSettings? settings = none) (input : ByteArray) :
    run reader reporter settings input =
      .failure "You must specify either gen=from or gen=to" := by
  have hconfigure : configure reporter settings =
      .error (reporter.ofText "You must specify either gen=from or gen=to") := by
    rw [configure, hnone]
  rw [run, hconfigure]
  exact congrArg Ending.failure (h.errorLine_ofText _)

theorem run_of_ofSettings?_eq_some {settings : List Setting} {config : Config}
    (hsome : Config.ofSettings? settings = some config) (input : ByteArray) :
    run reader reporter settings input =
      ending reporter (config.codeFor reader reporter input) := by
  have hconfigure : configure reporter settings = .ok config := by
    rw [configure, hsome]
  rw [run, hconfigure]
  rfl

namespace Config

variable (config : Config) {input : ByteArray}

theorem ending_codeFor_of_decode_eq_none (h : reporter.Lawful reader)
    (hnone : reader.decode input = none) :
    ending reporter (config.codeFor reader reporter input) =
      .failure "failed to read schema from stdin: stream did not contain valid UTF-8" := by
  rw [codeFor, hnone]
  exact congrArg Ending.failure (h.errorLine_within_notUtf8 _)

/-- The two ways from a text to code stop at the same stage. -/
theorem shows_codeFor (h : reporter.Lawful reader) {text : String}
    (htext : reader.decode input = some text) :
    Shows reader (generateFromText reader text config.direction config.options)
      (ending reporter (config.codeFor reader reporter input)).seen := by
  simp only [codeFor, htext, generateFromText]
  cases reader.parse text with
  | error e =>
    dsimp only [ending]
    rw [h.errorLine_json]
    exact .json e
  | ok document =>
    dsimp only
    cases generate document config.direction config.options with
    | error e =>
      dsimp only [ending]
      rw [h.errorLine_schema]
      exact .schema e
    | ok code => exact .code code

theorem codeFor_eq_ok_iff {code : String} :
    config.codeFor reader reporter input = .ok code ↔ ∃ text, reader.decode input = some text ∧
      generateFromText reader text config.direction config.options = .ok code := by
  cases hdecode : reader.decode input with
  | none => simp [codeFor, hdecode]
  | some text =>
    simp only [codeFor, hdecode, generateFromText, Option.some.injEq, exists_eq_left']
    cases reader.parse text with
    | error e => simp
    | ok document =>
      dsimp only
      cases generate document config.direction config.options <;> simp

theorem tells_ending_codeFor (input : ByteArray) :
    (ending reporter (config.codeFor reader reporter input)).Tells := by
  cases hcode : config.codeFor reader reporter input with
  | error report => exact Ending.tells_failure _
  | ok code =>
    obtain ⟨text, -, htext⟩ := config.codeFor_eq_ok_iff.1 hcode
    exact Ending.tells_success (exists_generateFromText_eq htext)

end Config

theorem tells_run (settings : List Setting) (input : ByteArray) :
    (run reader reporter settings input).Tells := by
  cases hconfig : Config.ofSettings? settings with
  | none =>
    rw [run, configure, hconfig]
    exact Ending.tells_failure _
  | some config =>
    rw [run_of_ofSettings?_eq_some hconfig]
    exact config.tells_ending_codeFor input

end

/-! ## Main statement -/

/-- The settings decide whether the input is looked at. Without a direction, which is the only way
to have no configuration, no input matters. Otherwise an input that is no text is reported, and for
a text the program shows what the library gives for it under the configuration, which is code that
starts with a using, or an error of the document or of the schema, and no other. Whatever the
settings are, the exit code is 1 exactly if what is printed starts with `ERROR: `. Every list of
settings can be given as arguments. This holds with any reader of documents, any lawful reporter,
and any reader of arguments that takes settings. -/
theorem run_shows_generateFromText {ε ρ : Type} (reader : DocumentReader ε)
    (reporter : Reporter ε ρ) (readArguments : ArgumentReader) (hreporter : reporter.Lawful reader)
    (harguments : readArguments.TakesSettings) :
    (∀ settings : List Setting, ∃ arguments, ∀ input,
      program reader reporter readArguments arguments input =
        run reader reporter settings input) ∧
    (∀ settings input,
      ((∀ d, .direction d ∉ settings) → Config.ofSettings? settings = none ∧
        (run reader reporter settings input).seen =
          (1, "ERROR: You must specify either gen=from or gen=to\n")) ∧
      ∀ d, .direction d ∈ settings → ∃ config, Config.ofSettings? settings = some config ∧
        (reader.decode input = none → (run reader reporter settings input).seen =
          (1, "ERROR: failed to read schema from stdin: stream did not contain valid UTF-8\n")) ∧
        ∀ text, reader.decode input = some text →
          Shows reader (generateFromText reader text config.direction config.options)
            (run reader reporter settings input).seen) ∧
    (∀ text direction options code, generateFromText reader text direction options = .ok code →
      ∃ rest, code = "using System.Collections.Generic;" ++ rest) ∧
    ∀ settings input, (∃ rest, (run reader reporter settings input).output = "ERROR: " ++ rest) ↔
      (run reader reporter settings input).exitCode = 1 := by
  refine ⟨fun settings => ⟨settings.map Setting.text, fun input => ?_⟩,
    fun settings input => ⟨fun hnone => ?_, fun d hd => ?_⟩,
    fun text direction options code h => exists_generateFromText_eq h, tells_run⟩
  · rw [program, harguments.map_text]
  · have hconfig := Config.ofSettings?_eq_none_iff.2 hnone
    refine ⟨hconfig, ?_⟩
    rw [run_of_ofSettings?_eq_none hreporter hconfig]
    rfl
  · obtain ⟨config, hconfig⟩ := Option.ne_none_iff_exists'.1 fun hnone =>
      Config.ofSettings?_eq_none_iff.1 hnone d hd
    rw [run_of_ofSettings?_eq_some hconfig]
    refine ⟨config, hconfig, fun hnone => ?_, fun text htext =>
      config.shows_codeFor hreporter htext⟩
    rw [config.ending_codeFor_of_decode_eq_none hreporter hnone]
    rfl

/-- The libraries that the program uses. Bytes that are no text go unnoticed without a direction. -/
theorem run_of_class_setting :
    let reporter := Report.reporter Json.reader
    reporter.Lawful Json.reader ∧ readArguments.TakesSettings ∧
    (run Json.reader reporter [.className "A"] ⟨#[255]⟩).seen =
      (1, "ERROR: You must specify either gen=from or gen=to\n") ∧
    Json.reader.decode ⟨#[255]⟩ = none ∧
    (run Json.reader reporter [.className "A", .direction .toJson] ⟨#[255]⟩).seen =
      (1, "ERROR: failed to read schema from stdin: stream did not contain valid UTF-8\n") ∧
    Json.reader.decode ⟨#[123, 125]⟩ = some "\x7b\x7d" ∧
    (∃ config, Config.ofSettings? [.className "A", .direction .toJson] = some config ∧
      Shows Json.reader (generateFromText Json.reader "\x7b\x7d" config.direction config.options)
        (run Json.reader reporter [.className "A", .direction .toJson] ⟨#[123, 125]⟩).seen) ∧
    ∃ code rest, generateFromText Json.reader "\x7b\x7d" .toJson {} = .ok code ∧
      code = "using System.Collections.Generic;" ++ rest := by
  intro reporter
  have hreporter : reporter.Lawful Json.reader := Report.lawful_reporter Json.reader
  have hbytes : Json.reader.decode ⟨#[255]⟩ = none := by decide +kernel
  have htext : Json.reader.decode ⟨#[123, 125]⟩ = some "\x7b\x7d" := by decide +kernel
  obtain ⟨-, hruns, hcode, -⟩ := run_shows_generateFromText Json.reader reporter readArguments
    hreporter takesSettings_readArguments
  have hnone := (hruns [.className "A"] ⟨#[255]⟩).1 (by simp)
  obtain ⟨-, -, hunread, -⟩ :=
    (hruns [.className "A", .direction .toJson] ⟨#[255]⟩).2 .toJson (by simp)
  obtain ⟨config, hconfig, -, hshown⟩ :=
    (hruns [.className "A", .direction .toJson] ⟨#[123, 125]⟩).2 .toJson (by simp)
  obtain ⟨code, hgenerated⟩ : ∃ code,
      generateFromText Json.reader "\x7b\x7d" .toJson {} = .ok code :=
    Outcome.exists_eq_ok (by decide +kernel)
  obtain ⟨rest, hrest⟩ := hcode _ _ _ _ hgenerated
  exact ⟨hreporter, takesSettings_readArguments, hnone.2, hbytes, hunread hbytes, htext,
    ⟨config, hconfig, hshown _ htext⟩, code, rest, hgenerated, hrest⟩

end CommandLine

end Marshal
