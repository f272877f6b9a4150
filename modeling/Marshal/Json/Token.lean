import Marshal.Json.Basic
import Marshal.Json.Numeral

/-!
# JSON tokens

The text of a document as a list of tokens. Only space, tab, line feed and carriage return separate
tokens. A string may hold every character but a quote, a backslash and the controls below `U+0020`,
which have to be escaped; escaped surrogates come in pairs.
-/

namespace Marshal

namespace Json

/-- Why a text is not a JSON document. -/
inductive SyntaxError where
  | unexpectedEnd
  | unexpectedCharacter (c : Char)
  | controlCharacter
  | badEscape
  | loneSurrogate
  | badNumber (literal : String)
  | numberOutOfRange (literal : String)
  | unexpectedToken
  | trailingToken
  | tooDeep
  deriving Repr, DecidableEq

def SyntaxError.message : SyntaxError → String
  | .unexpectedEnd => "EOF while parsing a value"
  | .unexpectedCharacter c => "unexpected character '" ++ c.toString ++ "'"
  | .controlCharacter => "control character in a string"
  | .badEscape => "invalid escape in a string"
  | .loneSurrogate => "unpaired surrogate in a string"
  | .badNumber literal => "invalid number " ++ literal
  | .numberOutOfRange literal => "number out of range " ++ literal
  | .unexpectedToken => "value, key or separator expected"
  | .trailingToken => "text after the document"
  | .tooDeep => "arrays and objects are nested too deeply"

/-- A bracket, a separator, a string, or another value without parts. -/
inductive Token where
  | openArray
  | closeArray
  | openObject
  | closeObject
  | comma
  | colon
  | text (content : String)
  | atom (value : Json)
  deriving Repr

namespace Token

def isSeparator (c : Char) : Bool :=
  c == ' ' || c == '\t' || c == '\n' || c == '\r'

/-! ## Strings -/

def hexDigit? (c : Char) : Option Nat :=
  if c.isDigit then some (c.toNat - '0'.toNat)
  else if 'a' ≤ c ∧ c ≤ 'f' then some (c.toNat - 'a'.toNat + 10)
  else if 'A' ≤ c ∧ c ≤ 'F' then some (c.toNat - 'A'.toNat + 10)
  else none

/-- Four hexadecimal digits, as the unit that they write. -/
def hexUnit? (a b c d : Char) : Option Nat := do
  let a ← hexDigit? a
  let b ← hexDigit? b
  let c ← hexDigit? c
  let d ← hexDigit? d
  return ((a * 16 + b) * 16 + c) * 16 + d

def isHighSurrogate (unit : Nat) : Bool :=
  0xD800 ≤ unit && unit < 0xDC00

def isLowSurrogate (unit : Nat) : Bool :=
  0xDC00 ≤ unit && unit < 0xE000

/-- The character that a surrogate pair encodes. -/
def ofSurrogates (high low : Nat) : Char :=
  Char.ofNat (0x10000 + (high - 0xD800) * 0x400 + (low - 0xDC00))

/-- The character that a letter stands for after a backslash. -/
def shortEscape? : Char → Option Char
  | '"' => some '"'
  | '\\' => some '\\'
  | '/' => some '/'
  | 'b' => some '\x08'
  | 'f' => some '\x0c'
  | 'n' => some '\n'
  | 'r' => some '\r'
  | 't' => some '\t'
  | _ => none

/-- The second half of a surrogate pair, up to the character after it. -/
def lowSurrogate : List Char → Except SyntaxError (Nat × List Char)
  | '\\' :: 'u' :: a :: b :: c :: d :: rest =>
    match hexUnit? a b c d with
    | none => .error .badEscape
    | some unit => if isLowSurrogate unit then .ok (unit, rest) else .error .loneSurrogate
  | _ => .error .loneSurrogate

/-- What a backslash and the text after it stand for, and the rest of the text. -/
def escape : List Char → Except SyntaxError (Char × List Char)
  | 'u' :: a :: b :: c :: d :: rest =>
    match hexUnit? a b c d with
    | none => .error .badEscape
    | some unit =>
      if isLowSurrogate unit then .error .loneSurrogate
      else if isHighSurrogate unit then
        match lowSurrogate rest with
        | .ok (low, rest) => .ok (ofSurrogates unit low, rest)
        | .error e => .error e
      else .ok (Char.ofNat unit, rest)
  | c :: rest =>
    match shortEscape? c with
    | some d => .ok (d, rest)
    | none => .error .badEscape
  | [] => .error .unexpectedEnd

theorem length_lowSurrogate {cs rest : List Char} {unit : Nat}
    (h : lowSurrogate cs = .ok (unit, rest)) : rest.length ≤ cs.length := by
  unfold lowSurrogate at h
  split at h
  · split at h
    · cases h
    · split at h <;> cases h
      simp only [List.length_cons]
      omega
  · cases h

theorem length_escape {cs rest : List Char} {c : Char} (h : escape cs = .ok (c, rest)) :
    rest.length ≤ cs.length := by
  unfold escape at h
  split at h
  · split at h
    · cases h
    · split at h
      · cases h
      · split at h
        · split at h
          · next hlow =>
            have := length_lowSurrogate hlow
            simp only [Except.ok.injEq, Prod.mk.injEq] at h
            obtain ⟨-, rfl⟩ := h
            simp only [List.length_cons]
            omega
          · cases h
        · cases h
          simp only [List.length_cons]
          omega
  · next d _ _ =>
    cases hd : shortEscape? d <;> rw [hd] at h <;> cases h
    simp
  · cases h

/-- The characters of a string up to its closing quote, and the rest of the text. The characters
already read are in `done`, the latest first. -/
def readText (done : List Char) (cs : List Char) : Except SyntaxError (String × List Char) :=
  match cs with
  | [] => .error .unexpectedEnd
  | c :: rest =>
    if c = '"' then .ok (String.ofList done.reverse, rest)
    else if c = '\\' then
      match h : escape rest with
      | .ok (d, rest') =>
        have := length_escape h
        readText (d :: done) rest'
      | .error e => .error e
    else if c.toNat < 0x20 then .error .controlCharacter
    else readText (c :: done) rest
  termination_by cs.length
  decreasing_by
    all_goals simp only [List.length_cons]
    all_goals omega

theorem length_readText {done cs rest : List Char} {s : String}
    (h : readText done cs = .ok (s, rest)) : rest.length < cs.length := by
  fun_induction readText done cs with
  | case1 => cases h
  | case2 => cases h; simp
  | case3 _ _ _ _ _ _ _ ih =>
    have := ih h
    simp only [List.length_cons]
    omega
  | case4 => cases h
  | case5 => cases h
  | case6 _ _ _ _ _ _ ih =>
    have := ih h
    simp only [List.length_cons]
    omega

/-! ## Numbers and whole texts -/

/-- The numeral that a run of characters writes. -/
def number (literal : List Char) : Except SyntaxError Json :=
  match Numeral.ofChars? literal with
  | none => .error (.badNumber (String.ofList literal))
  | some x =>
    if x.overflows then .error (.numberOutOfRange (String.ofList literal))
    else .ok (.num (String.ofList literal))

/-- The token of a single character. -/
def mark? : Char → Option Token
  | '[' => some .openArray
  | ']' => some .closeArray
  | '\x7b' => some .openObject
  | '\x7d' => some .closeObject
  | ',' => some .comma
  | ':' => some .colon
  | _ => none

/-- The token at the start of a text that begins with `c`, and the rest of the text. -/
def next (c : Char) (cs : List Char) : Except SyntaxError (Token × List Char) :=
  match mark? c with
  | some token => .ok (token, cs)
  | none =>
    if c = '"' then
      match readText [] cs with
      | .ok (s, rest) => .ok (.text s, rest)
      | .error e => .error e
    else if c = '-' ∨ c.isDigit then
      match number (c :: cs.takeWhile Numeral.isPart) with
      | .ok value => .ok (.atom value, cs.dropWhile Numeral.isPart)
      | .error e => .error e
    else
      match c, cs with
      | 'n', 'u' :: 'l' :: 'l' :: rest => .ok (.atom .null, rest)
      | 't', 'r' :: 'u' :: 'e' :: rest => .ok (.atom (.bool true), rest)
      | 'f', 'a' :: 'l' :: 's' :: 'e' :: rest => .ok (.atom (.bool false), rest)
      | _, _ => .error (.unexpectedCharacter c)

theorem length_next {c : Char} {cs rest : List Char} {token : Token}
    (h : next c cs = .ok (token, rest)) : rest.length ≤ cs.length := by
  unfold next at h
  split at h
  · cases h; exact Nat.le_refl _
  · split at h
    · split at h
      · next ht => cases h; exact Nat.le_of_lt (length_readText ht)
      · cases h
    · split at h
      · split at h
        · cases h; exact (List.dropWhile_sublist _).length_le
        · cases h
      · split at h <;> cases h <;> simp only [List.length_cons] <;> omega

/-- The tokens of a text, after those in `done`, of which the latest is first. -/
def scan (done : List Token) (cs : List Char) : Except SyntaxError (List Token) :=
  match cs with
  | [] => .ok done.reverse
  | c :: rest =>
    if isSeparator c then scan done rest
    else
      match h : next c rest with
      | .ok (token, rest') =>
        have := length_next h
        scan (token :: done) rest'
      | .error e => .error e
  termination_by cs.length
  decreasing_by
    all_goals simp only [List.length_cons]
    all_goals omega

def ofText (s : String) : Except SyntaxError (List Token) :=
  scan [] s.toList

end Token

end Json

end Marshal
