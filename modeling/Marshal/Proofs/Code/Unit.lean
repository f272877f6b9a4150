import Marshal.Proofs.Code.Nesting

/-!
# Methods and units as text

A method and a unit inherit from their bodies that lines are whole and that indentation is nesting.
Each method of a unit stands in its text as it stands on its own, two levels further right.
-/

namespace Marshal.Code

open Text

/-! ## Methods -/

namespace Method

variable {bad : List Char}

theorem free_header (hbad : bad ⊆ layoutChars) {m : Method} (h : ∀ text ∈ m.texts, Free bad text) :
    Free bad m.header := by
  simp only [Method.texts, List.forall_mem_cons, List.forall_mem_append] at h
  obtain ⟨hmodifiers, htype, hname, hparams, -⟩ := h
  have hjoined : Free bad (String.intercalate ", " m.params) :=
    free_intercalate (free_of_layout hbad (by decide)) hparams
  simp (disch := decide) [header, hmodifiers, htype, hname, hjoined, free_of_layout hbad]

theorem every_avoids {m : Method} (h : ∀ text ∈ m.texts, Free bad text) :
    Every (Stmt.Avoids bad) m.body := by
  simp only [Method.texts, List.forall_mem_cons, List.forall_mem_append] at h
  exact every_avoids_iff.2 h.2.2.2.2

theorem whole_lines {m : Method} (h : ∀ text ∈ m.texts, Free ['\n'] text) (depth : Nat) :
    Whole (m.lines depth) :=
  whole_block depth (free_header (by decide) h)
    (whole_stmtLines (depth + 1) m.body (every_avoids h))

theorem nests_lines {m : Method} (h : m.IsPlain layoutChars) (depth : Nat) :
    Nests depth (m.lines depth) depth :=
  nests_block (free_header (List.Subset.refl _) h.free)
    (nests_stmtLines (depth + 1) m.body (isPlain_iff.1 h).2)

theorem textOf_lines_add {m : Method} (h : ∀ text ∈ m.texts, Free ['\n'] text)
    (depth levels : Nat) :
    textOf (m.lines (depth + levels)) = indent levels (textOf (m.lines depth)) := by
  rw [lines_add, indent_textOf (whole_lines h depth)]

/-- At a depth, the text of a method is indented by so many levels. -/
theorem textOf_lines {m : Method} (h : ∀ text ∈ m.texts, Free ['\n'] text) (depth : Nat) :
    textOf (m.lines depth) = indent depth m.text := by
  have hadd := textOf_lines_add h 0 depth
  rwa [Nat.zero_add] at hadd

end Method

/-! ## Units -/

namespace CompilationUnit

/-- The lines of the methods, each with an empty line after it. -/
def methodLines (u : CompilationUnit) : List Line :=
  u.methods.flatMap fun m => m.lines 2 ++ [.blank]

/-- All lines of a unit but the last brace. -/
def wholeLines (u : CompilationUnit) : List Line :=
  (openUnit 0 u).lines ++ u.methodLines ++ [.code 1 "\x7d"]

theorem render_eq (u : CompilationUnit) : u.render = textOf u.wholeLines ++ "\x7d" := by
  have hlines : u.lines = u.wholeLines ++ [.last 0 "\x7d"] := by
    simp [lines, wholeLines, methodLines, openUnit, openBlock, closeUnit, closeBlock]
  rw [render, hlines, textOf_append]
  rfl

variable {u : CompilationUnit}

theorem whole_usingLines (h : ∀ name ∈ u.usings, Free ['\n'] name) : Whole u.usingLines := by
  refine whole_append.2 ⟨?_, ?_⟩
  · intro line hline
    obtain ⟨name, hname, rfl⟩ := List.mem_map.1 hline
    exact whole_code (by simp) (by simp +decide [h name hname]) _ (List.mem_singleton_self _)
  · split
    · simp [Whole]
    · simp [Whole, Line.IsWhole]

theorem whole_wholeLines (h : ∀ text ∈ u.texts, Free ['\n'] text) : Whole u.wholeLines := by
  simp only [texts, List.forall_mem_append, List.forall_mem_cons, List.forall_mem_flatMap] at h
  obtain ⟨husings, hspace, hmodifiers, hclass, hmethods⟩ := h
  have hstart : Whole (openUnit 0 u).lines :=
    whole_append.2 ⟨whole_append.2 ⟨whole_usingLines husings,
      whole_code (by simp) (by simp +decide [hspace])⟩,
      whole_code (by simp) (by simp +decide [hmodifiers, hclass])⟩
  have hlines : Whole u.methodLines := by
    intro line hline
    obtain ⟨m, hm, hline⟩ := List.mem_flatMap.1 hline
    rcases List.mem_append.1 hline with hline | hline
    · exact Method.whole_lines (hmethods m hm) 2 line hline
    · obtain rfl := List.mem_singleton.1 hline
      trivial
  exact whole_append.2 ⟨whole_append.2 ⟨hstart, hlines⟩, whole_code (by simp) (by decide)⟩

theorem nests_usingLines (h : ∀ name ∈ u.usings, Free layoutChars name) :
    Nests 0 u.usingLines 0 := by
  have hnames : Nests 0 (u.usings.map fun name => .code 0 ("using " ++ name ++ ";")) 0 := by
    rw [List.map_eq_flatMap]
    exact nests_flatMap fun name hname => nests_text (by simp +decide [h name hname]) 0
  refine hnames.append ?_
  split
  · exact nests_nil 0
  · exact nests_blank 0

theorem nests_wholeLines (h : u.IsPlain layoutChars) : Nests 0 u.wholeLines 1 := by
  have htexts := h.free
  simp only [texts, List.forall_mem_append, List.forall_mem_cons, List.forall_mem_flatMap] at htexts
  obtain ⟨husings, hspace, hmodifiers, hclass, hmethods⟩ := htexts
  have hstart : Nests 0 (openUnit 0 u).lines 2 :=
    ((nests_usingLines husings).append (nests_openBlock (by simp +decide [hspace]) 0)).append
      (nests_openBlock (by simp +decide [hmodifiers, hclass]) 1)
  have hlines : Nests 2 u.methodLines 2 := nests_flatMap fun m hm =>
    (Method.nests_lines ⟨hmethods m hm, h.branched m hm⟩ 2).append (nests_blank 2)
  exact (hstart.append hlines).append (nests_closeBlock 1)

/-- The braces of a unit lead from no nesting to no nesting, and the last of them ends the text. -/
theorem IsPlain.nested_render (h : u.IsPlain layoutChars) :
    Nested 0 (linesOf u.render) 0 ∧ u.render.toList.getLast? = some closing := by
  have hwhole : Whole u.wholeLines :=
    whole_wholeLines fun text htext => (h.free text htext).mono (by decide)
  have hlast : Nested 1 [['\x7d']] 0 := by
    refine .cons (by decide) (fun _ => ⟨0, by decide, List.nil_prefix⟩) ?_
    exact .nil (by decide)
  rw [render_eq, linesOf_textOf_append hwhole]
  refine ⟨Nested.append (nests_wholeLines h) hlast, ?_⟩
  rw [String.toList_append, List.getLast?_append]
  rfl

end CompilationUnit

end Marshal.Code
