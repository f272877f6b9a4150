import Mathlib.Data.List.DropRight
import Marshal.Text.Basic

/-!
# Laws of trimming

`trim` takes blanks off both ends and nothing else: every text is its trimmed form between blanks
(`exists_eq_pad`), and blanks put around a text are taken off again (`trim_pad`). A text stays as it
is exactly if it does not begin or end with a blank (`trim_eq_self_iff`).
-/

namespace Marshal.Text

/-- The text has blanks only. -/
def Blanks (cs : List Char) : Prop := ∀ c ∈ cs, isBlank c = true

instance (cs : List Char) : Decidable (Blanks cs) :=
  List.decidableBAll (fun c => isBlank c = true) cs

theorem blanks_nil : Blanks [] := by
  simp [Blanks]

theorem isBlank_of_isDigit {c : Char} (h : c.isDigit = true) : isBlank c = false := by
  have hdigit := Char.isDigit_iff_toNat.1 h
  have hzero : '0'.toNat = 48 := rfl
  have hnine : '9'.toNat = 57 := rfl
  simp only [isBlank, blankRanges, List.any_cons, List.any_nil, Bool.or_false, Bool.or_eq_false_iff,
    Bool.and_eq_false_iff, decide_eq_false_iff_not]
  omega

theorem Blanks.append {a b : List Char} (ha : Blanks a) (hb : Blanks b) : Blanks (a ++ b) := by
  intro c hc
  exact (List.mem_append.1 hc).elim (ha c) (hb c)

theorem trim_eq_rdropWhile (cs : List Char) :
    trim cs = (cs.dropWhile isBlank).rdropWhile isBlank := rfl

/-! ## Blanks around a text -/

/-- A text is its trimmed form between blanks. -/
theorem exists_eq_pad (cs : List Char) :
    ∃ before after, Blanks before ∧ Blanks after ∧ cs = before ++ trim cs ++ after := by
  refine ⟨cs.takeWhile isBlank, (cs.dropWhile isBlank).rtakeWhile isBlank, ?_, ?_, ?_⟩
  · exact fun c hc => List.mem_takeWhile_imp hc
  · exact fun c hc => List.mem_rtakeWhile_imp hc
  · rw [trim_eq_rdropWhile, List.append_assoc, List.rdropWhile_append_rtakeWhile,
      List.takeWhile_append_dropWhile]

theorem rdropWhile_append_blanks {after : List Char} (h : Blanks after) (cs : List Char) :
    (cs ++ after).rdropWhile isBlank = cs.rdropWhile isBlank := by
  rw [List.rdropWhile, List.reverse_append,
    List.dropWhile_append_of_pos fun c hc => h c (List.mem_reverse.1 hc), List.rdropWhile]

theorem trim_append_blanks {after : List Char} (h : Blanks after) (cs : List Char) :
    trim (cs ++ after) = trim cs := by
  simp only [trim_eq_rdropWhile]
  rw [List.dropWhile_append]
  split
  · next hcs =>
    have hnil : cs.dropWhile isBlank = [] := by simpa using hcs
    rw [hnil, List.dropWhile_eq_nil_iff.2 h]
  · exact rdropWhile_append_blanks h _

theorem trim_blanks_append {before : List Char} (h : Blanks before) (cs : List Char) :
    trim (before ++ cs) = trim cs := by
  rw [trim_eq_rdropWhile, List.dropWhile_append_of_pos h, trim_eq_rdropWhile]

theorem trim_pad {before after : List Char} (hb : Blanks before) (ha : Blanks after)
    (cs : List Char) : trim (before ++ cs ++ after) = trim cs := by
  rw [trim_append_blanks ha, trim_blanks_append hb]

theorem trim_dropWhile (cs : List Char) : trim (cs.dropWhile isBlank) = trim cs := by
  rw [trim_eq_rdropWhile, List.dropWhile_idempotent, trim_eq_rdropWhile]

theorem trim_eq_nil_iff {cs : List Char} : trim cs = [] ↔ Blanks cs := by
  constructor
  · intro h
    obtain ⟨before, after, hb, ha, hcs⟩ := exists_eq_pad cs
    rw [h, List.append_nil] at hcs
    exact hcs ▸ hb.append ha
  · intro h
    simpa [trim] using trim_append_blanks h []

theorem mem_of_mem_trim {cs : List Char} {c : Char} (h : c ∈ trim cs) : c ∈ cs := by
  obtain ⟨before, after, -, -, hcs⟩ := exists_eq_pad cs
  rw [hcs]
  simp [h]

/-! ## Texts without blanks at their ends -/

theorem dropWhile_eq_self_iff_head {cs : List Char} :
    cs.dropWhile isBlank = cs ↔ ∀ c, cs.head? = some c → isBlank c = false := by
  rw [List.dropWhile_eq_self_iff]
  cases cs with
  | nil => simp
  | cons c rest => simp

theorem rdropWhile_eq_self_iff_last {cs : List Char} :
    cs.rdropWhile isBlank = cs ↔ ∀ c, cs.getLast? = some c → isBlank c = false := by
  rw [List.rdropWhile_eq_self_iff]
  constructor
  · intro h c hc
    obtain ⟨hne, rfl⟩ := List.mem_getLast?_eq_getLast hc
    simpa using h hne
  · intro h hne
    simp [h _ (List.getLast?_eq_some_getLast hne)]

theorem trim_eq_self_iff {cs : List Char} :
    trim cs = cs ↔ (∀ c, cs.head? = some c → isBlank c = false) ∧
      ∀ c, cs.getLast? = some c → isBlank c = false := by
  rw [← dropWhile_eq_self_iff_head, ← rdropWhile_eq_self_iff_last, trim_eq_rdropWhile]
  constructor
  · intro h
    have hlen : cs.length ≤ (cs.dropWhile isBlank).length := by
      conv_lhs => rw [← h]
      exact (List.rdropWhile_prefix isBlank _).length_le
    have hd : cs.dropWhile isBlank = cs :=
      (List.dropWhile_sublist isBlank).eq_of_length_le hlen
    rw [hd] at h
    exact ⟨hd, h⟩
  · rintro ⟨hd, hr⟩
    rw [hd, hr]

theorem trim_trim (cs : List Char) : trim (trim cs) = trim cs := by
  obtain ⟨before, after, hb, ha, hcs⟩ := exists_eq_pad cs
  conv_rhs => rw [hcs, trim_pad hb ha]

/-- What ends in a text without blanks at its ends is trimmed at its start only. -/
theorem trim_append_of_trimmed {rest : List Char} (hne : rest ≠ []) (h : trim rest = rest)
    (cs : List Char) : trim (cs ++ rest) = cs.dropWhile isBlank ++ rest := by
  obtain ⟨hhead, hlast⟩ := trim_eq_self_iff.1 h
  have hdrop : (cs ++ rest).dropWhile isBlank = cs.dropWhile isBlank ++ rest := by
    rw [List.dropWhile_append]
    split
    · next hcs =>
      have hnil : cs.dropWhile isBlank = [] := by simpa using hcs
      rw [hnil, dropWhile_eq_self_iff_head.2 hhead, List.nil_append]
    · rfl
  rw [trim_eq_rdropWhile, hdrop]
  apply rdropWhile_eq_self_iff_last.2
  intro c hc
  apply hlast c
  rwa [List.getLast?_append_of_ne_nil _ hne] at hc

/-- The trimmed form of a text without blanks at its end is an end of it. -/
theorem trim_isSuffix {cs : List Char} (h : ∀ c, cs.getLast? = some c → isBlank c = false) :
    trim cs <:+ cs := by
  have hlast : ∀ c, (cs.dropWhile isBlank).getLast? = some c → isBlank c = false := by
    intro c hc
    obtain ⟨before, hcs⟩ := List.dropWhile_suffix (l := cs) isBlank
    apply h c
    rw [← hcs, List.getLast?_append, hc]
    rfl
  rw [trim_eq_rdropWhile, rdropWhile_eq_self_iff_last.2 hlast]
  exact List.dropWhile_suffix isBlank

end Marshal.Text
