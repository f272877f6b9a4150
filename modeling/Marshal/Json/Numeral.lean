/-!
# Numerals

The number grammar of JSON and the rule for a number that is too large. A numeral is an optional
minus sign, a whole part without a superfluous leading zero, an optional fraction and an optional
exponent. It is refused if its value, formed from at most 64 bits of leading digits, is infinite as
a double.
-/

namespace Marshal.Json

/-- The parts of a numeral, with digits as numbers below ten. -/
structure Numeral where
  negative : Bool
  whole : List Nat
  fraction : List Nat
  exponent : Int
  deriving Repr

namespace Numeral

/-- The characters that occur in numerals. -/
def isPart (c : Char) : Bool :=
  c.isDigit || c == '-' || c == '+' || c == '.' || c == 'e' || c == 'E'

def digitValue (c : Char) : Nat :=
  c.toNat - '0'.toNat

/-- Splits off the leading digits. -/
def digits (cs : List Char) : List Nat × List Char :=
  ((cs.takeWhile Char.isDigit).map digitValue, cs.dropWhile Char.isDigit)

/-- The leading digits, of which there is at least one. -/
def digits₁? (cs : List Char) : Option (List Nat × List Char) :=
  match digits cs with
  | ([], _) => none
  | found => some found

def whole? (cs : List Char) : Option (List Nat × List Char) :=
  match digits cs with
  | ([], _) => none
  | (0 :: _ :: _, _) => none
  | found => some found

def fraction? : List Char → Option (List Nat × List Char)
  | '.' :: cs => digits₁? cs
  | cs => some ([], cs)

def ofDigits (ds : List Nat) : Nat :=
  ds.foldl (fun n d => 10 * n + d) 0

/-- The exponent; nothing may follow it. -/
def exponent? : List Char → Option Int
  | [] => some 0
  | e :: cs => if e = 'e' ∨ e = 'E' then signed cs else none
where
  signed : List Char → Option Int
    | '-' :: cs => magnitude cs |>.map fun n => -(n : Int)
    | '+' :: cs => magnitude cs |>.map Int.ofNat
    | cs => magnitude cs |>.map Int.ofNat
  magnitude (cs : List Char) : Option Nat :=
    match digits₁? cs with
    | some (ds, []) => some (ofDigits ds)
    | _ => none

def unsigned? (negative : Bool) (cs : List Char) : Option Numeral := do
  let (whole, cs) ← whole? cs
  let (fraction, cs) ← fraction? cs
  let exponent ← exponent? cs
  return { negative, whole, fraction, exponent }

def ofChars? : List Char → Option Numeral
  | '-' :: cs => unsigned? true cs
  | cs => unsigned? false cs

/-- Appends leading digits to `n` while the result fits 64 bits, and counts the digits used. -/
def absorb (n : Nat) : List Nat → Nat × Nat
  | [] => (n, 0)
  | d :: ds =>
    if 10 * n + d < 2 ^ 64 then
      let (m, used) := absorb (10 * n + d) ds
      (m, used + 1)
    else (n, 0)

/-- The leading digits as one number, and the power of ten by which it is to be multiplied. Digits
of the whole part that do not fit still count as places; those of the fraction are dropped. -/
def scaled (x : Numeral) : Nat × Int :=
  let (n, used) := absorb 0 x.whole
  let (n, places) := absorb n x.fraction
  (n, (x.whole.length - used : Nat) - (places : Int) + x.exponent)

/-- Whether the magnitude is too large for a double. -/
def overflows (x : Numeral) : Bool :=
  let (n, power) := x.scaled
  if power < 0 then false
  else if 308 < power then n != 0
  else (n.toFloat * Float.ofScientific 1 false power.toNat).isInf

end Numeral

end Marshal.Json
