import Marshal.Json.Token

/-!
# Reading JSON

A document is read by an automaton that takes one token at a time and keeps the arrays and objects
that are still open. It checks the nesting when a bracket opens, so that a document is refused for
its depth before its end is seen.
-/

namespace Marshal

namespace Json

/-- An array or object in which a value is being read. -/
inductive Frame where
  /-- The items before the value, the latest first. -/
  | item (before : List Json)
  /-- The members before the value, and the key that the value belongs to. -/
  | member (before : List (String × Json)) (key : String)

/-- What may come next, and what has been read. -/
inductive State where
  | beforeValue (stack : List Frame)
  | arrayOpened (stack : List Frame)
  | objectOpened (stack : List Frame)
  | afterItem (items : List Json) (stack : List Frame)
  | afterMember (members : List (String × Json)) (stack : List Frame)
  | beforeKey (members : List (String × Json)) (stack : List Frame)
  | beforeColon (members : List (String × Json)) (key : String) (stack : List Frame)
  | finished (value : Json)

namespace State

/-- The state after a whole value. -/
def complete (value : Json) : List Frame → State
  | [] => .finished value
  | .item before :: stack => .afterItem (value :: before) stack
  | .member before key :: stack => .afterMember (put key value before) stack

/-- Takes a token where a value has to start. At most `limit` arrays and objects may be open. -/
def start (limit : Nat) (stack : List Frame) : Token → Except SyntaxError State
  | .openArray => if stack.length < limit then .ok (.arrayOpened stack) else .error .tooDeep
  | .openObject => if stack.length < limit then .ok (.objectOpened stack) else .error .tooDeep
  | .text s => .ok (complete (.str s) stack)
  | .atom value => .ok (complete value stack)
  | _ => .error .unexpectedToken

def step (limit : Nat) : State → Token → Except SyntaxError State
  | .beforeValue stack, token => start limit stack token
  | .arrayOpened stack, .closeArray => .ok (complete (.arr []) stack)
  | .arrayOpened stack, token => start limit (.item [] :: stack) token
  | .objectOpened stack, .closeObject => .ok (complete (.obj []) stack)
  | .objectOpened stack, .text k => .ok (.beforeColon [] k stack)
  | .afterItem items stack, .comma => .ok (.beforeValue (.item items :: stack))
  | .afterItem items stack, .closeArray => .ok (complete (.arr items.reverse) stack)
  | .afterMember members stack, .comma => .ok (.beforeKey members stack)
  | .afterMember members stack, .closeObject => .ok (complete (.obj members) stack)
  | .beforeKey members stack, .text k => .ok (.beforeColon members k stack)
  | .beforeColon members k stack, .colon => .ok (.beforeValue (.member members k :: stack))
  | .finished _, _ => .error .trailingToken
  | _, _ => .error .unexpectedToken

def result : State → Except SyntaxError Json
  | .finished value => .ok value
  | _ => .error .unexpectedEnd

end State

/-- Reads a document whose arrays and objects are nested at most `limit` deep. -/
def parseWithin (limit : Nat) (text : String) : Except SyntaxError Json := do
  let tokens ← Token.ofText text
  let last ← tokens.foldlM (State.step limit) (.beforeValue [])
  last.result

/-- The deepest nesting that is read. -/
def maxDepth : Nat := 127

def parse (text : String) : Except SyntaxError Json :=
  parseWithin maxDepth text

end Json

end Marshal
