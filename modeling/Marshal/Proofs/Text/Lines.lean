import Mathlib.Data.List.Basic
import Mathlib.Data.String.Basic

/-!
# Lines of a text

A line feed separates two lines, so that a text which ends with one has an empty last line. `indent`
moves all lines to the right, except those that are empty.
-/

namespace Marshal.Text

def linesOf (text : String) : List (List Char) :=
  text.toList.splitOn '\n'

/-- The indentation of a line by so many levels. -/
def spaces (levels : Nat) : List Char :=
  List.replicate (4 * levels) ' '

theorem spaces_add (depth levels : Nat) :
    spaces (depth + levels) = spaces levels ++ spaces depth := by
  rw [spaces, spaces, spaces, List.replicate_append_replicate]
  congr 1
  omega

def indentLine (levels : Nat) (line : List Char) : List Char :=
  if line = [] then [] else spaces levels ++ line

/-- Puts so many levels of indentation in front of every line that is not empty. -/
def indent (levels : Nat) (text : String) : String :=
  String.ofList (['\n'].intercalate ((linesOf text).map (indentLine levels)))

theorem linesOf_empty : linesOf "" = [[]] :=
  List.splitOn_nil '\n'

theorem linesOf_line_append {line : String} (h : '\n' ∉ line.toList) (rest : String) :
    linesOf (line ++ "\n" ++ rest) = line.toList :: linesOf rest := by
  have hchars : (line ++ "\n" ++ rest).toList = line.toList ++ '\n' :: rest.toList := by
    simp [String.toList_append]
  rw [linesOf, hchars]
  exact List.splitOn_append_cons_self_of_not_mem h rest.toList

theorem indent_empty (levels : Nat) : indent levels "" = "" := by
  rw [indent, linesOf_empty]
  rfl

theorem indent_line_append {line : String} (h : '\n' ∉ line.toList) (levels : Nat) (rest : String) :
    indent levels (line ++ "\n" ++ rest) =
      String.ofList (indentLine levels line.toList) ++ "\n" ++ indent levels rest := by
  obtain ⟨first, more, hrest⟩ := List.exists_cons_of_ne_nil
    (show linesOf rest ≠ [] from List.splitOn_ne_nil '\n' rest.toList)
  rw [indent, indent, linesOf_line_append h, hrest]
  simp only [List.map_cons, List.intercalate_cons_cons, String.ofList_append]

end Marshal.Text
