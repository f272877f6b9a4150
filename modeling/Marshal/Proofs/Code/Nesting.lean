import Marshal.Proofs.Code.Lines

/-!
# Indentation and the nesting of braces

A reader of generated code can follow the braces line by line. `Nested` says that the nesting never
becomes negative and that the lines are indented by it. The lines of a body lead from its depth back
to its depth (`nested_stmtLines`), provided that no text in it holds a brace or a line feed and that
every conditional has a branch: without one, an `else` would close a block that was never opened.
-/

namespace Marshal

namespace Text

def opening : Char := '\x7b'

def closing : Char := '\x7d'

/-- The nesting after a line. -/
def nestingAfter (nesting : Int) (line : List Char) : Int :=
  nesting + line.count opening - line.count closing

/-- The first character of a line that is no space. -/
def firstMark (line : List Char) : Option Char :=
  (line.dropWhile (· = ' ')).head?

/-- How many levels a line is indented by. A closing brace at its start stands outside its block. -/
def lineLevel (nesting : Int) (line : List Char) : Int :=
  if firstMark line = some closing then nesting - 1 else nesting

/-- The lines lead from one nesting to another. Each of them is indented by the nesting at its
place, unless it is empty, and the nesting is never negative. -/
inductive Nested : Int → List (List Char) → Int → Prop
  | nil {nesting : Int} (hnesting : 0 ≤ nesting) : Nested nesting [] nesting
  | cons {nesting stop : Int} {line : List Char} {rest : List (List Char)} (hnesting : 0 ≤ nesting)
      (hline : line ≠ [] → ∃ levels : Nat, levels = lineLevel nesting line ∧ spaces levels <+: line)
      (hrest : Nested (nestingAfter nesting line) rest stop) : Nested nesting (line :: rest) stop

theorem Nested.append {start mid stop : Int} {lines rest : List (List Char)}
    (h : Nested start lines mid) (hrest : Nested mid rest stop) :
    Nested start (lines ++ rest) stop := by
  induction h with
  | nil _ => exact hrest
  | cons hnesting hline _ ih => exact .cons hnesting hline (ih hrest)

/-! ## One line -/

theorem count_spaces_append {c : Char} (hc : c ≠ ' ') (levels : Nat) (line : List Char) :
    (spaces levels ++ line).count c = line.count c := by
  rw [List.count_append, spaces, List.count_replicate, if_neg (by simpa using hc.symm),
    Nat.zero_add]

theorem nestingAfter_append (nesting : Int) (line rest : List Char) :
    nestingAfter nesting (line ++ rest) = nestingAfter (nestingAfter nesting line) rest := by
  simp only [nestingAfter, List.count_append]
  omega

theorem firstMark_spaces_append (levels : Nat) (line : List Char) :
    firstMark (spaces levels ++ line) = firstMark line := by
  rw [firstMark, List.dropWhile_append_of_pos (by simp [spaces])]
  rfl

theorem firstMark_ne {c : Char} {line : List Char} (h : c ∉ line) : firstMark line ≠ some c := by
  intro hmark
  exact h ((List.dropWhile_sublist _).subset (List.mem_of_mem_head? hmark))

section Free

variable {text : String} (h : Free layoutChars text)
include h

theorem lineLevel_of_free (nesting : Int) : lineLevel nesting text.toList = nesting :=
  if_neg (firstMark_ne (h.not_mem (by decide)))

theorem nestingAfter_of_free (nesting : Int) : nestingAfter nesting text.toList = nesting := by
  have hopening : opening ∉ text.toList := h.not_mem (by decide)
  have hclosing : closing ∉ text.toList := h.not_mem (by decide)
  simp [nestingAfter, List.count_eq_zero_of_not_mem hopening,
    List.count_eq_zero_of_not_mem hclosing]

end Free

end Text

namespace Code

open Text

/-- The lines lead from one depth to another. -/
def Nests (start : Nat) (lines : List Line) (stop : Nat) : Prop :=
  Nested start (lines.map Line.content) stop

theorem nests_nil (depth : Nat) : Nests depth [] depth :=
  .nil (Int.natCast_nonneg depth)

theorem Nests.append {start mid stop : Nat} {lines rest : List Line} (h : Nests start lines mid)
    (hrest : Nests mid rest stop) : Nests start (lines ++ rest) stop := by
  rw [Nests, List.map_append]
  exact Nested.append h hrest

theorem nests_flatMap {α : Type} {depth : Nat} {items : List α} {f : α → List Line}
    (h : ∀ item ∈ items, Nests depth (f item) depth) : Nests depth (items.flatMap f) depth := by
  induction items with
  | nil => exact nests_nil depth
  | cons item items ih =>
    obtain ⟨hitem, hitems⟩ := List.forall_mem_cons.1 h
    rw [List.flatMap_cons]
    exact hitem.append (ih hitems)

theorem nests_blank (depth : Nat) : Nests depth [.blank] depth :=
  .cons (Int.natCast_nonneg depth) (fun hne => absurd rfl hne) (nests_nil depth)

/-- A line of code nests as its own text says. -/
theorem nests_code {start stop depth : Nat} {text : String}
    (hlevel : (depth : Int) = lineLevel start text.toList)
    (hstop : (stop : Int) = nestingAfter start text.toList) :
    Nests start [.code depth text] stop := by
  refine .cons (Int.natCast_nonneg start) (fun _ => ⟨depth, ?_, List.prefix_append _ _⟩) ?_
  · rw [hlevel, lineLevel, lineLevel, Line.content, firstMark_spaces_append]
  · rw [nestingAfter, Line.content, count_spaces_append (by decide),
      count_spaces_append (by decide), ← nestingAfter, ← hstop]
    exact nests_nil stop

section Header

variable {header : String} (h : Free layoutChars header)
include h

theorem nests_text (depth : Nat) : Nests depth [.code depth header] depth :=
  nests_code (lineLevel_of_free h depth).symm (nestingAfter_of_free h depth).symm

theorem nests_openBlock (depth : Nat) : Nests depth (openBlock depth header).lines (depth + 1) := by
  apply nests_code
  · have hmark : closing ∉ (header ++ " \x7b").toList := by
      rw [String.toList_append, List.mem_append]
      exact not_or.2 ⟨h.not_mem (by decide), by decide⟩
    exact (if_neg (firstMark_ne hmark)).symm
  · rw [String.toList_append, nestingAfter_append, nestingAfter_of_free h]
    rfl

/-- The line closes a block and opens another at the same place. -/
theorem nests_continueBlock (depth : Nat) :
    Nests (depth + 1) (continueBlock (depth + 1) header).lines (depth + 1) := by
  apply nests_code
  · have hmark : firstMark ("\x7d " ++ header ++ " \x7b").toList = some closing := by
      rw [String.append_assoc, String.toList_append]
      rfl
    rw [lineLevel, if_pos hmark]
    simp
  · rw [String.toList_append, String.toList_append, nestingAfter_append, nestingAfter_append,
      nestingAfter_of_free h]
    simp [nestingAfter, opening, closing]

end Header

theorem nests_closeBlock (depth : Nat) :
    Nests (depth + 1) (closeBlock (depth + 1)).lines depth := by
  apply nests_code
  · have hmark : firstMark "\x7d".toList = some closing := by decide
    rw [lineLevel, if_pos hmark]
    simp
  · simp [nestingAfter, opening, closing]

/-- Lines that nest are read off their text. -/
theorem Nests.nested {start stop : Nat} {lines : List Line} (h : Nests start lines stop)
    (hwhole : Whole lines) : Nested start (linesOf (textOf lines)) stop := by
  have hlines := linesOf_textOf_append hwhole ""
  rw [String.append_empty, linesOf_empty] at hlines
  rw [hlines]
  refine Nested.append h (.cons (Int.natCast_nonneg stop) (fun hne => absurd rfl hne) ?_)
  rw [show nestingAfter stop [] = stop by simp [nestingAfter]]
  exact .nil (Int.natCast_nonneg stop)

/-! ## Bodies -/

theorem nests_block {header : String} (h : Free layoutChars header) {depth : Nat}
    {body : Nat → List Line} (hbody : Nests (depth + 1) (body (depth + 1)) (depth + 1)) :
    Nests depth (block depth header body) depth :=
  ((nests_openBlock h depth).append hbody).append (nests_closeBlock depth)

/-- The first branch opens a block, and each later one replaces it. -/
theorem nests_branchStart {condition : String} (h : Free layoutChars condition) (depth : Nat)
    (isFirst : Bool) :
    Nests (if isFirst then depth else depth + 1)
      (branchStart depth (depth + 1) isFirst condition).lines (depth + 1) := by
  cases isFirst with
  | true => exact nests_openBlock (by simp +decide [h]) depth
  | false => exact nests_continueBlock (by simp +decide [h]) depth

mutual

theorem Stmt.nests_lines (depth : Nat) : (stmt : Stmt) → stmt.IsPlain layoutChars →
    stmt.Inside (Stmt.IsPlain layoutChars) → Nests depth (stmt.lines depth) depth
  | .declare type name construct value, h, _ => by
    rw [Stmt.lines]
    exact nests_text (free_declaration (List.Subset.refl _) h.1) depth
  | .assign left right, h, _ => by
    rw [Stmt.lines]
    exact nests_text (by simp +decide [isPlain_assign.1 h]) depth
  | .expr text, h, _ => by
    rw [Stmt.lines]
    exact nests_text (by simp +decide [isPlain_expr.1 h]) depth
  | .conditional branches otherwise, h, hinside => by
    obtain ⟨hbodies, hbody⟩ := inside_conditional.1 hinside
    obtain ⟨hconditions, hne⟩ := isPlain_conditional.1 h
    have hbranches := nests_branchStretch depth true branches (fun _ => hne) hconditions hbodies
    rw [Stmt.lines_conditional]
    exact (hbranches.append (nests_otherwiseStretch depth otherwise hbody)).append
      (nests_closeBlock depth)
  | .forLoop start condition step body, h, hinside => by
    rw [Stmt.lines]
    exact nests_block (by simp +decide [isPlain_forLoop.1 h])
      (nests_stmtLines (depth + 1) body (inside_forLoop.1 hinside))
  | .foreach element items body, h, hinside => by
    rw [Stmt.lines]
    exact nests_block (by simp +decide [isPlain_foreach.1 h])
      (nests_stmtLines (depth + 1) body (inside_foreach.1 hinside))
  | .ret value, h, _ => by
    rw [Stmt.lines]
    exact nests_text (free_returnText (List.Subset.refl _) h.1) depth
  | .blank, _, _ => by
    rw [Stmt.lines]
    exact nests_blank depth

/-- The lines of a body lead from its depth back to its depth. -/
theorem nests_stmtLines (depth : Nat) : (body : List Stmt) → Every (Stmt.IsPlain layoutChars) body →
    Nests depth (stmtLines depth body) depth
  | [], _ => by
    rw [stmtLines]
    exact nests_nil depth
  | stmt :: rest, h => by
    obtain ⟨⟨hstmt, hinside⟩, hrest⟩ := every_cons.1 h
    rw [stmtLines]
    exact (Stmt.nests_lines depth stmt hstmt hinside).append (nests_stmtLines depth rest hrest)

/-- The branches of a conditional lead into its last block. -/
theorem nests_branchStretch (depth : Nat) (isFirst : Bool) :
    (branches : List (String × List Stmt)) → (isFirst = true → branches ≠ []) →
    (∀ branch ∈ branches, Free layoutChars branch.1) →
    (∀ branch ∈ branches, Every (Stmt.IsPlain layoutChars) branch.2) →
    Nests (if isFirst then depth else depth + 1)
      (branchStretch depth (depth + 1) isFirst branches).lines (depth + 1)
  | [], hne, _, _ => by
    have hlater : isFirst = false := by simpa using hne
    rw [branchStretch, hlater]
    exact nests_nil (depth + 1)
  | (condition, body) :: rest, _, hconditions, hbodies => by
    obtain ⟨hcondition, hconditions⟩ := List.forall_mem_cons.1 hconditions
    obtain ⟨hbody, hbodies⟩ := List.forall_mem_cons.1 hbodies
    have hrest := nests_branchStretch depth false rest (by simp) hconditions hbodies
    rw [branchStretch_cons_lines]
    exact ((nests_branchStart hcondition depth isFirst).append
      (nests_stmtLines (depth + 1) body hbody)).append hrest

theorem nests_otherwiseStretch (depth : Nat) : (otherwise : Option (List Stmt)) →
    (∀ body ∈ otherwise, Every (Stmt.IsPlain layoutChars) body) →
    Nests (depth + 1) (otherwiseStretch (depth + 1) otherwise).lines (depth + 1)
  | none, _ => by
    rw [otherwiseStretch]
    exact nests_nil (depth + 1)
  | some body, h => by
    rw [otherwiseStretch_some_lines]
    exact (nests_continueBlock (by decide) depth).append
      (nests_stmtLines (depth + 1) body (h body rfl))

end

end Code

end Marshal
