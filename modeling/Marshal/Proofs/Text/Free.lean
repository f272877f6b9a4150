import Mathlib.Data.String.Basic

/-!
# Texts without certain characters
-/

namespace Marshal.Text

/-- None of the characters `bad` occurs in the text. -/
def Free (bad : List Char) (text : String) : Prop :=
  ∀ c ∈ text.toList, c ∉ bad

instance (bad : List Char) (text : String) : Decidable (Free bad text) :=
  List.decidableBAll (fun c => c ∉ bad) text.toList

variable {bad bad' : List Char} {text rest : String}

@[simp] theorem free_append : Free bad (text ++ rest) ↔ Free bad text ∧ Free bad rest := by
  simp only [Free, String.toList_append, List.forall_mem_append]

theorem free_intercalate {separator : String} (hseparator : Free bad separator)
    {texts : List String} (h : ∀ text ∈ texts, Free bad text) :
    Free bad (String.intercalate separator texts) := by
  induction texts with
  | nil => simp [Free]
  | cons text texts ih =>
    obtain ⟨htext, htexts⟩ := List.forall_mem_cons.1 h
    cases texts with
    | nil => simpa using htext
    | cons next rest =>
      rw [String.intercalate_cons_cons, free_append, free_append]
      exact ⟨⟨htext, hseparator⟩, ih htexts⟩

theorem Free.mono (h : Free bad text) (hsub : bad' ⊆ bad) : Free bad' text :=
  fun c hc hbad => h c hc (hsub hbad)

theorem Free.not_mem (h : Free bad text) {c : Char} (hc : c ∈ bad) : c ∉ text.toList :=
  fun hmem => h c hmem hc

/-- The characters that layout gives a meaning. -/
def layoutChars : List Char :=
  ['\n', '\x7b', '\x7d']

theorem free_of_layout (hbad : bad ⊆ layoutChars) (h : Free layoutChars text) : Free bad text :=
  h.mono hbad

end Marshal.Text
