import Marshal.Scalar
import Marshal.Text.Basic

/-!
# The outermost form of a type string

`Form.of` looks at a trimmed type string and says of which form it is and which parts remain to be
read. The rules overlap, and the first that applies decides: the nullable mark, scalar keywords,
enums, arrays, lists, dictionaries; what is left is the name of a composite. An enum name never
ends in brackets, because `enum Color[]` is an array of enums.
-/

namespace Marshal

namespace TypeExpr

inductive Form where
  /-- There is nothing to read, or only the word `enum`. -/
  | missing
  | nullable (rest : List Char)
  | scalar (kind : Scalar)
  | enum (name : List Char)
  | array (elem : List Char)
  | list (elem : List Char)
  | dictionary (key value : List Char)
  /-- A dictionary without a comma. -/
  | noComma
  /-- A dictionary whose part after the first comma does not end in `>`. -/
  | noClosing
  | composite
  deriving Repr, DecidableEq

namespace Form

/-- The text after the word `enum`, unless it ends in brackets. -/
def enumName? (cs : List Char) : Option (List Char) :=
  match Text.afterStart? "enum ".toList cs with
  | none => none
  | some name => if (Text.beforeEnd? "[]".toList name).isSome then none else some name

/-- The text between `List<` and the final `>`. -/
def listElem? (cs : List Char) : Option (List Char) :=
  (Text.afterStart? "List<".toList cs).bind (Text.beforeEnd? ">".toList)

/-- Splits what follows `Dictionary<` at its first comma. -/
def ofDictionary (body : List Char) : Form :=
  match Text.splitFirst? ',' body with
  | none => .noComma
  | some (key, rest) =>
    match Text.beforeEnd? ">".toList rest with
    | none => .noClosing
    | some value => .dictionary key value

/-- The form of the trimmed text `cs`. -/
def of (cs : List Char) : Form :=
  if cs = [] then .missing
  else if let some rest := Text.beforeEnd? "?".toList cs then .nullable rest
  else if let some kind := Scalar.ofKeyword? (String.ofList cs) then .scalar kind
  else if cs = "enum".toList then .missing
  else if let some name := enumName? cs then
    if Text.trim name = [] then .missing else .enum (Text.trim name)
  else if let some elem := Text.beforeEnd? "[]".toList cs then .array elem
  else if let some elem := listElem? cs then .list elem
  else if let some body := Text.afterStart? "Dictionary<".toList cs then ofDictionary body
  else .composite

/-- The texts that remain to be read. -/
def parts : Form → List (List Char)
  | .nullable rest => [rest]
  | .array elem => [elem]
  | .list elem => [elem]
  | .dictionary key value => [key, value]
  | _ => []

theorem length_lt_of_listElem? {cs elem : List Char} (h : listElem? cs = some elem) :
    elem.length < cs.length := by
  simp only [listElem?, Option.bind_eq_some_iff, Text.afterStart?_eq_some,
    Text.beforeEnd?_eq_some] at h
  obtain ⟨body, rfl, rfl⟩ := h
  simp
  omega

theorem length_lt_of_ofDictionary {body part : List Char} (h : part ∈ (ofDictionary body).parts) :
    part.length < body.length := by
  unfold ofDictionary at h
  split at h
  · simp [parts] at h
  · next key rest hs =>
    obtain ⟨rfl, -⟩ := Text.splitFirst?_eq_some.1 hs
    split at h
    · simp [parts] at h
    · next value hv =>
      obtain rfl := Text.beforeEnd?_eq_some.1 hv
      simp only [parts, List.mem_cons, List.not_mem_nil, or_false] at h
      rcases h with rfl | rfl <;> simp
      omega

/-- What remains to be read is shorter than the text. -/
theorem length_lt_of_mem_parts {cs part : List Char} (h : part ∈ (of cs).parts) :
    part.length < cs.length := by
  unfold of at h
  split at h
  · simp [parts] at h
  split at h
  · next hr =>
    obtain rfl := Text.beforeEnd?_eq_some.1 hr
    simp only [parts, List.mem_singleton] at h
    simp [h]
  split at h
  · simp [parts] at h
  split at h
  · simp [parts] at h
  split at h
  · split at h <;> simp [parts] at h
  split at h
  · next he =>
    obtain rfl := Text.beforeEnd?_eq_some.1 he
    simp only [parts, List.mem_singleton] at h
    simp [h]
  split at h
  · next he =>
    simp only [parts, List.mem_singleton] at h
    exact h ▸ length_lt_of_listElem? he
  split at h
  · next hb =>
    obtain rfl := Text.afterStart?_eq_some.1 hb
    have := length_lt_of_ofDictionary h
    simp
    omega
  · simp [parts] at h

end Form

end TypeExpr

end Marshal
