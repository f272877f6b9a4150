import Marshal.Code.Layout
import Marshal.Proofs.Code.Tree
import Marshal.Proofs.Text.Lines

/-!
# From laid-out lines to text

To lay a body out at a greater depth is to shift its lines (`stmtLines_add`). A body whose texts
hold no line feeds is laid out as whole lines (`whole_stmtLines`). These can be told apart in the
text, so that to shift them is to indent it (`textOf_stmtLines_add`).
-/

namespace Marshal.Code

open Text

/-! ## Lines -/

namespace Line

/-- What stands on a line, without the line feed. -/
def content : Line → List Char
  | .blank => []
  | .code depth text => spaces depth ++ text.toList
  | .last depth text => spaces depth ++ text.toList

/-- A line feed stands at the end of the line and nowhere else. A line of code is not empty. -/
def IsWhole : Line → Prop
  | .blank => True
  | .code _ text => text ≠ "" ∧ '\n' ∉ text.toList
  | .last _ _ => False

/-- Moves a line of code to the right by so many levels. -/
def shift (levels : Nat) : Line → Line
  | .blank => .blank
  | .code depth text => .code (depth + levels) text
  | .last depth text => .last (depth + levels) text

variable {line : Line}

theorem text_of_isWhole (h : line.IsWhole) : line.text = String.ofList line.content ++ "\n" := by
  cases line with
  | blank => rfl
  | code depth text => simp [Line.text, content, indentation, spaces, String.ofList_append]
  | last depth text => exact h.elim

theorem not_mem_content (h : line.IsWhole) : '\n' ∉ line.content := by
  cases line with
  | blank => simp [content]
  | code depth text => simp [content, spaces, h.2]
  | last depth text => exact h.elim

theorem indentLine_content (h : line.IsWhole) (levels : Nat) :
    indentLine levels line.content = (line.shift levels).content := by
  cases line with
  | blank => rfl
  | code depth text =>
    have hne : spaces depth ++ text.toList ≠ [] := by simp [h.1]
    rw [content, indentLine, if_neg hne, shift, content, spaces_add, List.append_assoc]
  | last depth text => exact h.elim

theorem isWhole_shift (h : line.IsWhole) (levels : Nat) : (line.shift levels).IsWhole := by
  cases line with
  | blank => trivial
  | code depth text => exact h
  | last depth text => exact h.elim

end Line

/-- All lines are whole. -/
def Whole (lines : List Line) : Prop :=
  ∀ line ∈ lines, line.IsWhole

/-! ## Texts of lines -/

theorem textOf_cons (line : Line) (lines : List Line) :
    textOf (line :: lines) = line.text ++ textOf lines := by
  simp [textOf, String.join_cons]

theorem textOf_append (lines rest : List Line) :
    textOf (lines ++ rest) = textOf lines ++ textOf rest := by
  simp [textOf]

theorem textOf_flatMap {α : Type} (items : List α) (f : α → List Line) :
    textOf (items.flatMap f) = String.join (items.map fun item => textOf (f item)) := by
  induction items with
  | nil => simp [textOf]
  | cons item items ih => rw [List.flatMap_cons, textOf_append, ih, List.map_cons, String.join_cons]

variable {lines : List Line}

/-- Whole lines are the lines of their text. -/
theorem linesOf_textOf_append (h : Whole lines) (rest : String) :
    linesOf (textOf lines ++ rest) = lines.map Line.content ++ linesOf rest := by
  induction lines with
  | nil => simp [textOf]
  | cons line lines ih =>
    obtain ⟨hline, hlines⟩ := List.forall_mem_cons.1 h
    have hfree : '\n' ∉ (String.ofList line.content).toList := by
      simpa using Line.not_mem_content hline
    rw [textOf_cons, Line.text_of_isWhole hline, String.append_assoc, linesOf_line_append hfree,
      ih hlines, String.toList_ofList]
    rfl

/-- To indent a text of whole lines is to shift them. -/
theorem indent_textOf (h : Whole lines) (levels : Nat) :
    indent levels (textOf lines) = textOf (lines.map (Line.shift levels)) := by
  induction lines with
  | nil => exact indent_empty levels
  | cons line lines ih =>
    obtain ⟨hline, hlines⟩ := List.forall_mem_cons.1 h
    have hfree : '\n' ∉ (String.ofList line.content).toList := by
      simpa using Line.not_mem_content hline
    rw [List.map_cons, textOf_cons, textOf_cons, Line.text_of_isWhole hline,
      indent_line_append hfree, ih hlines, String.toList_ofList, Line.indentLine_content hline,
      Line.text_of_isWhole (Line.isWhole_shift hline levels)]

/-! ## Shifting a body -/

theorem block_add (depth levels : Nat) (header : String) {body : Nat → List Line}
    (h : body (depth + 1 + levels) = (body (depth + 1)).map (Line.shift levels)) :
    block (depth + levels) header body = (block depth header body).map (Line.shift levels) := by
  rw [block, block, openBlock_depth, openBlock_depth, Nat.add_right_comm, h]
  simp [openBlock, closeBlock, Line.shift, Nat.add_right_comm]

theorem branchStart_add (depth levels : Nat) (isFirst : Bool) (condition : String) :
    (branchStart (depth + levels) (depth + 1 + levels) isFirst condition).lines =
      (branchStart depth (depth + 1) isFirst condition).lines.map (Line.shift levels) := by
  cases isFirst <;>
    simp [branchStart, openBlock, continueBlock, Line.shift, Nat.add_right_comm depth 1]

mutual

theorem Stmt.lines_add (depth levels : Nat) :
    (stmt : Stmt) → stmt.lines (depth + levels) = (stmt.lines depth).map (Line.shift levels)
  | .declare _ _ _ _ | .assign _ _ | .expr _ | .ret _ | .blank => by
    simp [Stmt.lines, Line.shift]
  | .conditional branches otherwise => by
    have hbranches := branchStretch_add depth levels true branches
    have hotherwise := otherwiseStretch_add depth levels otherwise
    rw [Stmt.lines_conditional, Stmt.lines_conditional, Nat.add_right_comm depth levels 1,
      hbranches, hotherwise]
    simp [closeBlock, Line.shift, Nat.add_right_comm depth 1]
  | .forLoop _ _ _ body => by
    have hbody := stmtLines_add (depth + 1) levels body
    rw [Stmt.lines, Stmt.lines]
    exact block_add depth levels _ hbody
  | .foreach _ _ body => by
    have hbody := stmtLines_add (depth + 1) levels body
    rw [Stmt.lines, Stmt.lines]
    exact block_add depth levels _ hbody

/-- At a greater depth the lines of a body are shifted, and otherwise the same. -/
theorem stmtLines_add (depth levels : Nat) :
    (body : List Stmt) →
      stmtLines (depth + levels) body = (stmtLines depth body).map (Line.shift levels)
  | [] => by simp [stmtLines]
  | stmt :: rest => by
    have hstmt := Stmt.lines_add depth levels stmt
    have hrest := stmtLines_add depth levels rest
    simp only [stmtLines, hstmt, hrest, List.map_append]

theorem branchStretch_add (depth levels : Nat) (isFirst : Bool) :
    (branches : List (String × List Stmt)) →
      (branchStretch (depth + levels) (depth + 1 + levels) isFirst branches).lines =
        (branchStretch depth (depth + 1) isFirst branches).lines.map (Line.shift levels)
  | [] => by simp [branchStretch]
  | (condition, body) :: rest => by
    have hstart := branchStart_add depth levels isFirst condition
    have hbody := stmtLines_add (depth + 1) levels body
    have hrest := branchStretch_add depth levels false rest
    rw [Nat.add_right_comm depth 1 levels] at hstart hbody hrest ⊢
    rw [branchStretch_cons_lines, branchStretch_cons_lines, hstart, hbody, hrest, List.map_append,
      List.map_append]

theorem otherwiseStretch_add (depth levels : Nat) :
    (otherwise : Option (List Stmt)) →
      (otherwiseStretch (depth + 1 + levels) otherwise).lines =
        (otherwiseStretch (depth + 1) otherwise).lines.map (Line.shift levels)
  | none => by simp [otherwiseStretch]
  | some body => by
    have hbody := stmtLines_add (depth + 1) levels body
    rw [Nat.add_right_comm depth 1 levels] at hbody ⊢
    rw [otherwiseStretch_some_lines, otherwiseStretch_some_lines, hbody]
    simp [continueBlock, Line.shift]

end

theorem Method.lines_add (depth levels : Nat) (m : Method) :
    m.lines (depth + levels) = (m.lines depth).map (Line.shift levels) :=
  block_add depth levels m.header (stmtLines_add (depth + 1) levels m.body)

/-! ## Bodies without line feeds -/

theorem whole_append {rest : List Line} : Whole (lines ++ rest) ↔ Whole lines ∧ Whole rest :=
  List.forall_mem_append

theorem whole_code {depth : Nat} {text : String} (hne : text ≠ "") (h : Free ['\n'] text) :
    Whole [.code depth text] := by
  simpa [Whole] using ⟨hne, h.not_mem (by simp)⟩

theorem whole_block (depth : Nat) {header : String} {body : Nat → List Line}
    (hheader : Free ['\n'] header) (hbody : Whole (body (depth + 1))) :
    Whole (block depth header body) := by
  have hopen : Whole (openBlock depth header).lines :=
    whole_code (by simp) (by simp +decide [hheader])
  have hclose : Whole (closeBlock (depth + 1)).lines := whole_code (by simp) (by decide)
  exact whole_append.2 ⟨whole_append.2 ⟨hopen, hbody⟩, hclose⟩

section Texts

variable {bad : List Char}

theorem free_declaration (hbad : bad ⊆ layoutChars) {type name : String}
    {construct value : Option String} (h : (Stmt.declare type name construct value).Avoids bad) :
    Free bad (declaration type name construct value) := by
  cases construct <;> cases value <;>
    simp only [Stmt.Avoids, Stmt.texts, Option.toList, List.nil_append, List.cons_append,
      List.forall_mem_cons] at h <;>
    simp (disch := decide) [declaration, h, free_of_layout hbad]

theorem free_returnText (hbad : bad ⊆ layoutChars) {value : Option String}
    (h : (Stmt.ret value).Avoids bad) : Free bad (returnText value) := by
  cases value with
  | none => exact free_of_layout hbad (by decide)
  | some value =>
    have hvalue : Free bad value := by simpa [Stmt.Avoids] using h
    simp only [returnText]
    split <;> simp (disch := decide) [hvalue, free_of_layout hbad]

theorem declaration_ne_empty (type name : String) (construct value : Option String) :
    declaration type name construct value ≠ "" := by
  simp [declaration]

theorem returnText_ne_empty (value : Option String) : returnText value ≠ "" := by
  cases value with
  | none => simp [returnText]
  | some value =>
    simp only [returnText]
    split <;> simp

end Texts

theorem whole_branchStart (depth bodyDepth : Nat) (isFirst : Bool) {condition : String}
    (h : Free ['\n'] condition) : Whole (branchStart depth bodyDepth isFirst condition).lines := by
  cases isFirst <;> exact whole_code (by simp) (by simp +decide [h])

mutual

theorem Stmt.whole_lines (depth : Nat) : (stmt : Stmt) → stmt.Avoids ['\n'] →
    stmt.Inside (Stmt.Avoids ['\n']) → Whole (stmt.lines depth)
  | .declare type name construct value, h, _ => by
    rw [Stmt.lines]
    exact whole_code (declaration_ne_empty type name construct value)
      (free_declaration (by decide) h)
  | .assign left right, h, _ => by
    simp only [Stmt.Avoids, Stmt.texts, List.forall_mem_cons] at h
    rw [Stmt.lines]
    exact whole_code (by simp) (by simp +decide [h])
  | .expr text, h, _ => by
    simp only [Stmt.Avoids, Stmt.texts, List.forall_mem_cons] at h
    rw [Stmt.lines]
    exact whole_code (by simp) (by simp +decide [h])
  | .conditional branches otherwise, h, hinside => by
    obtain ⟨hbodies, hbody⟩ := inside_conditional.1 hinside
    have hconditions : ∀ branch ∈ branches, Free ['\n'] branch.1 := List.forall_mem_map.1 h
    have hclose : Whole (closeBlock (depth + 1)).lines := whole_code (by simp) (by decide)
    rw [Stmt.lines_conditional, whole_append, whole_append]
    exact ⟨⟨whole_branchStretch depth true branches hconditions hbodies,
      whole_otherwiseStretch depth otherwise hbody⟩, hclose⟩
  | .forLoop start condition step body, h, hinside => by
    simp only [Stmt.Avoids, Stmt.texts, List.forall_mem_cons] at h
    rw [Stmt.lines]
    exact whole_block depth (by simp +decide [h])
      (whole_stmtLines (depth + 1) body (inside_forLoop.1 hinside))
  | .foreach element items body, h, hinside => by
    simp only [Stmt.Avoids, Stmt.texts, List.forall_mem_cons] at h
    rw [Stmt.lines]
    exact whole_block depth (by simp +decide [h])
      (whole_stmtLines (depth + 1) body (inside_foreach.1 hinside))
  | .ret value, h, _ => by
    rw [Stmt.lines]
    exact whole_code (returnText_ne_empty value) (free_returnText (by decide) h)
  | .blank, _, _ => by simp [Stmt.lines, Whole, Line.IsWhole]

/-- A body without line feeds is laid out as whole lines. -/
theorem whole_stmtLines (depth : Nat) : (body : List Stmt) → Every (Stmt.Avoids ['\n']) body →
    Whole (stmtLines depth body)
  | [], _ => by simp [stmtLines, Whole]
  | stmt :: rest, h => by
    obtain ⟨⟨hstmt, hinside⟩, hrest⟩ := every_cons.1 h
    rw [stmtLines, whole_append]
    exact ⟨Stmt.whole_lines depth stmt hstmt hinside, whole_stmtLines depth rest hrest⟩

theorem whole_branchStretch (depth : Nat) (isFirst : Bool) :
    (branches : List (String × List Stmt)) →
    (∀ branch ∈ branches, Free ['\n'] branch.1) →
    (∀ branch ∈ branches, Every (Stmt.Avoids ['\n']) branch.2) →
    Whole (branchStretch depth (depth + 1) isFirst branches).lines
  | [], _, _ => by simp [branchStretch, Whole]
  | (condition, body) :: rest, hconditions, hbodies => by
    obtain ⟨hcondition, hconditions⟩ := List.forall_mem_cons.1 hconditions
    obtain ⟨hbody, hbodies⟩ := List.forall_mem_cons.1 hbodies
    rw [branchStretch_cons_lines, whole_append, whole_append]
    exact ⟨⟨whole_branchStart depth (depth + 1) isFirst hcondition,
      whole_stmtLines (depth + 1) body hbody⟩,
      whole_branchStretch depth false rest hconditions hbodies⟩

theorem whole_otherwiseStretch (depth : Nat) : (otherwise : Option (List Stmt)) →
    (∀ body ∈ otherwise, Every (Stmt.Avoids ['\n']) body) →
    Whole (otherwiseStretch (depth + 1) otherwise).lines
  | none, _ => by simp [otherwiseStretch, Whole]
  | some body, h => by
    have hstart : Whole (continueBlock (depth + 1) "else").lines := whole_code (by simp) (by decide)
    rw [otherwiseStretch_some_lines, whole_append]
    exact ⟨hstart, whole_stmtLines (depth + 1) body (h body rfl)⟩

end

/-- At a greater depth the text of a body is indented, and otherwise the same. -/
theorem textOf_stmtLines_add {body : List Stmt} (h : Every (Stmt.Avoids ['\n']) body)
    (depth levels : Nat) :
    textOf (stmtLines (depth + levels) body) = indent levels (textOf (stmtLines depth body)) := by
  rw [stmtLines_add, indent_textOf (whole_stmtLines depth body h)]

end Marshal.Code
