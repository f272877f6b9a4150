import Marshal.TypeExpr.Basic
import Marshal.TypeExpr.Form

/-!
# Reading a type string

The form of the trimmed text says which parts remain, and these are read in the same way. Of the
two parts of a dictionary the key is read first, so that its fault wins.
-/

namespace Marshal

namespace TypeExpr

/-- What is wrong with a type string. -/
inductive Fault where
  | missing
  | noComma
  | noClosing
  deriving Repr, DecidableEq

theorem length_lt_of_form {cs part : List Char} {form : Form}
    (h : Form.of (Text.trim cs) = form) (hp : part ∈ form.parts) : part.length < cs.length := by
  subst h
  exact Nat.lt_of_lt_of_le (Form.length_lt_of_mem_parts hp) (Text.length_trim_le cs)

/-- Reads a type. Blanks around the type and around each of its parts do not matter. -/
def parseChars (cs : List Char) : Except Fault TypeExpr :=
  match _h : Form.of (Text.trim cs) with
  | .missing => .error .missing
  | .noComma => .error .noComma
  | .noClosing => .error .noClosing
  | .scalar kind => .ok (.scalar false kind)
  | .enum name => .ok (.enum false (String.ofList name))
  | .composite => .ok (.composite false (String.ofList (Text.trim cs)))
  | .nullable rest => (parseChars rest).map (withNullable true)
  | .array elem => (parseChars elem).map (array false)
  | .list elem => (parseChars elem).map (list false)
  | .dictionary key value =>
    match parseChars key with
    | .error fault => .error fault
    | .ok k => (parseChars value).map (dictionary false k)
  termination_by cs.length
  decreasing_by
    all_goals exact length_lt_of_form ‹Form.of _ = _› (by simp [Form.parts])

end TypeExpr

end Marshal
