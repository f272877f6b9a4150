/-!
# Taking a text apart

Blank characters and their removal from both ends of a text, removing a given beginning or end, and
splitting at a character. The functions on beginnings, ends and splits come with the equation
between lists of characters that says when they succeed.
-/

namespace Marshal.Text

/-! ## Blank characters -/

/-- The code points with the Unicode property `White_Space`, as closed ranges in ascending order. -/
def blankRanges : List (Nat × Nat) :=
  [(0x0009, 0x000D), (0x0020, 0x0020), (0x0085, 0x0085), (0x00A0, 0x00A0), (0x1680, 0x1680),
    (0x2000, 0x200A), (0x2028, 0x2029), (0x202F, 0x202F), (0x205F, 0x205F), (0x3000, 0x3000)]

def isBlank (c : Char) : Bool :=
  blankRanges.any fun range => decide (range.1 ≤ c.toNat) && decide (c.toNat ≤ range.2)

def trim (cs : List Char) : List Char :=
  ((cs.dropWhile isBlank).reverse.dropWhile isBlank).reverse

theorem length_trim_le (cs : List Char) : (trim cs).length ≤ cs.length := by
  have h₁ := (List.dropWhile_sublist (l := (cs.dropWhile isBlank).reverse) isBlank).length_le
  have h₂ := (List.dropWhile_sublist (l := cs) isBlank).length_le
  simp only [trim, List.length_reverse] at *
  omega

/-! ## Beginnings, ends and splits -/

/-- What follows the beginning `p`, if `cs` begins with it. -/
def afterStart? : List Char → List Char → Option (List Char)
  | [], cs => some cs
  | _ :: _, [] => none
  | a :: p, c :: cs => if a = c then afterStart? p cs else none

/-- What precedes the end `p`, if `cs` ends with it. -/
def beforeEnd? (p cs : List Char) : Option (List Char) :=
  (afterStart? p.reverse cs.reverse).map List.reverse

/-- The texts before and after the first `c`. -/
def splitFirst? (c : Char) : List Char → Option (List Char × List Char)
  | [] => none
  | d :: cs =>
    if d = c then some ([], cs)
    else (splitFirst? c cs).map fun parts => (d :: parts.1, parts.2)

theorem afterStart?_eq_some {p cs rest : List Char} :
    afterStart? p cs = some rest ↔ cs = p ++ rest := by
  fun_induction afterStart? p cs with
  | case1 cs => simp
  | case2 => simp
  | case3 p c cs ih => simpa using ih
  | case4 a p c cs h => simp [Ne.symm h]

theorem beforeEnd?_eq_some {p cs rest : List Char} :
    beforeEnd? p cs = some rest ↔ cs = rest ++ p := by
  simp only [beforeEnd?, Option.map_eq_some_iff, afterStart?_eq_some]
  constructor
  · rintro ⟨r, h, rfl⟩
    simpa using congrArg List.reverse h
  · rintro rfl
    exact ⟨rest.reverse, by simp, by simp⟩

theorem afterStart?_eq_none {p cs : List Char} : afterStart? p cs = none ↔ ¬ p <+: cs := by
  rw [Option.eq_none_iff_forall_ne_some]
  exact ⟨fun h ⟨rest, hcs⟩ => h rest (afterStart?_eq_some.2 hcs.symm),
    fun h rest hrest => h ⟨rest, (afterStart?_eq_some.1 hrest).symm⟩⟩

theorem beforeEnd?_eq_none {p cs : List Char} : beforeEnd? p cs = none ↔ ¬ p <:+ cs := by
  rw [Option.eq_none_iff_forall_ne_some]
  exact ⟨fun h ⟨rest, hcs⟩ => h rest (beforeEnd?_eq_some.2 hcs.symm),
    fun h rest hrest => h ⟨rest, (beforeEnd?_eq_some.1 hrest).symm⟩⟩

theorem splitFirst?_eq_some {c : Char} {cs before after : List Char} :
    splitFirst? c cs = some (before, after) ↔ cs = before ++ c :: after ∧ c ∉ before := by
  induction cs generalizing before after with
  | nil => simp [splitFirst?]
  | cons d cs ih =>
      by_cases h : d = c
      · subst h
        cases before <;> simp [splitFirst?, eq_comm]
        grind
      · simp only [splitFirst?, if_neg h, Option.map_eq_some_iff, Prod.exists, Prod.mk.injEq, ih]
        cases before with
        | nil => simp [h]
        | cons b before => grind

theorem splitFirst?_eq_none {c : Char} {cs : List Char} : splitFirst? c cs = none ↔ c ∉ cs := by
  induction cs with
  | nil => simp [splitFirst?]
  | cons d cs ih => by_cases h : d = c <;> simp [splitFirst?, h, ih, Ne.symm]

end Marshal.Text
