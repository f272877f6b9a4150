import Marshal.Generate

/-!
# Reports

A run that has no code ends with a report, which is made of an error or of a text and may be put
into a context. Reports are kept by a library of their own: `Reporter` is what a run uses of it, and
`Reporter.Lawful` what it may rely on.
-/

namespace Marshal

namespace CommandLine

/-- An error that a stage of a run ends with. -/
inductive Cause (ε : Type) where
  /-- The input is no text. -/
  | notUtf8
  | json (e : ε)
  | schema (e : SchemaError)
  deriving Repr, DecidableEq

namespace Cause

variable {ε : Type}

def message (reader : DocumentReader ε) : Cause ε → String
  | notUtf8 => "stream did not contain valid UTF-8"
  | json e => reader.message e
  | schema e => e.message

def schemaError? : Cause ε → Option SchemaError
  | notUtf8 => none
  | json _ => none
  | schema e => some e

end Cause

/-- A library of reports, where `ρ` is the type of a report. -/
structure Reporter (ε ρ : Type) where
  ofText : String → ρ
  ofCause : Cause ε → ρ
  /-- Puts a report into a context. -/
  within : String → ρ → ρ
  /-- The schema error that a report was made of, if it was made of one. -/
  schemaError? : ρ → Option SchemaError
  /-- The whole report in one line. -/
  line : ρ → String

/-- A report is told by what it was made of, behind the contexts that it was put into, and an error
that it was made of can be found again in any context. -/
structure Reporter.Lawful {ε ρ : Type} (reporter : Reporter ε ρ) (reader : DocumentReader ε) :
    Prop where
  line_ofText (text : String) : reporter.line (reporter.ofText text) = text
  line_ofCause (cause : Cause ε) : reporter.line (reporter.ofCause cause) = cause.message reader
  line_within (context : String) (report : ρ) :
    reporter.line (reporter.within context report) = context ++ ": " ++ reporter.line report
  schemaError?_ofText (text : String) : reporter.schemaError? (reporter.ofText text) = none
  schemaError?_ofCause (cause : Cause ε) :
    reporter.schemaError? (reporter.ofCause cause) = cause.schemaError?
  schemaError?_within (context : String) (report : ρ) :
    reporter.schemaError? (reporter.within context report) = reporter.schemaError? report

/-! ## Reports as trees -/

/-- A report that is kept as it was made. -/
inductive Report (ε : Type) where
  | ofText (text : String)
  | ofCause (cause : Cause ε)
  | within (context : String) (report : Report ε)
  deriving Repr, DecidableEq

namespace Report

variable {ε : Type}

def line (reader : DocumentReader ε) : Report ε → String
  | ofText text => text
  | ofCause cause => cause.message reader
  | within context report => context ++ ": " ++ report.line reader

def schemaError? : Report ε → Option SchemaError
  | ofText _ => none
  | ofCause cause => cause.schemaError?
  | within _ report => report.schemaError?

def reporter (reader : DocumentReader ε) : Reporter ε (Report ε) where
  ofText := ofText
  ofCause := ofCause
  within := within
  schemaError? := schemaError?
  line := line reader

theorem lawful_reporter (reader : DocumentReader ε) : (reporter reader).Lawful reader where
  line_ofText _ := rfl
  line_ofCause _ := rfl
  line_within _ _ := rfl
  schemaError?_ofText _ := rfl
  schemaError?_ofCause _ := rfl
  schemaError?_within _ _ := rfl

end Report

end CommandLine

end Marshal
