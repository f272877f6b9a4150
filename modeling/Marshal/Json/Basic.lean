/-!
# JSON values

Members of an object are a list of pairs in document order, because the order in which a schema
declares its types and fields decides the order of what is generated. `put` is the rule for a key
that is written twice: the last value wins and the first place is kept.
-/

namespace Marshal

/-- A JSON value. A number is kept as it was written. -/
inductive Json where
  | null
  | bool (value : Bool)
  | num (literal : String)
  | str (text : String)
  | arr (items : List Json)
  | obj (members : List (String × Json))
  deriving Repr, Inhabited

namespace Json

/-- Gives `key` the value `value`, in the place that the key already has or else at the end. -/
def put {α : Type} (key : String) (value : α) : List (String × α) → List (String × α)
  | [] => [(key, value)]
  | (k, v) :: rest => if k = key then (key, value) :: rest else (k, v) :: put key value rest

/-- The value of the member `key`, if `j` is an object that has one. -/
def get? (j : Json) (key : String) : Option Json :=
  match j with
  | .obj members => members.lookup key
  | _ => none

end Json

end Marshal
