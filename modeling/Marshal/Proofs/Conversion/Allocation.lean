import Mathlib.Logic.Function.Iterate
import Marshal.Conversion.Read
import Marshal.Proofs.TypeExpr.RoundTrip

/-!
# The place of the count in an allocation

An allocation is built from the spelling of the element type alone. Stripping a pair of brackets
from its end undoes one array layer (`stripRanks_brackets`), and stripping stops at a text that does
not end in brackets (`stripRanks_of_not_isSuffix`). Of the types that can be read, only the arrays
without a nullable mark are spelled with brackets at the end (`not_brackets_isSuffix_csharp`). Main
statement: the count stands behind the type under the array layers, and is followed by one pair of
brackets for each layer (`arrayAllocation_csharp`).
-/

namespace Marshal

namespace TypeExpr

/-! ## Array layers -/

/-- The number of array layers at the outside of a type. A nullable array is no such layer. -/
def ranks : TypeExpr → Nat
  | array false elem => elem.ranks + 1
  | _ => 0

/-- The type under these layers. -/
def underRanks : TypeExpr → TypeExpr
  | array false elem => elem.underRanks
  | t => t

theorem underRanks_eq_self {t : TypeExpr} (h : ∀ elem, t ≠ array false elem) :
    t.underRanks = t := by
  rw [underRanks]
  exact h

theorem iterate_array_underRanks (t : TypeExpr) :
    (array false)^[t.ranks] t.underRanks = t := by
  fun_induction ranks t with
  | case1 elem ih => rw [underRanks, Function.iterate_succ_apply', ih]
  | case2 t h => rw [underRanks_eq_self h, Function.iterate_zero_apply]

theorem underRanks_ne_array (t elem : TypeExpr) : t.underRanks ≠ array false elem := by
  fun_induction underRanks t with
  | case1 inner ih => exact ih
  | case2 t h => exact h elem

/-! ## Spellings that end in brackets -/

theorem not_brackets_isSuffix_append {tail : String} (text : String) (htail : tail.toList ≠ [])
    (hne : tail.toList.getLast? ≠ some ']') : ¬ "[]".toList <:+ (text ++ tail).toList := by
  rw [String.toList_append, ← Text.beforeEnd?_eq_none]
  exact Form.beforeEnd?_append_eq_none text.toList (by decide) htail hne.symm

/-- A nullable mark hides what stands before it. -/
theorem not_brackets_isSuffix_mark {b : Bool} {w : String}
    (h : b = false → ¬ "[]".toList <:+ w.toList) : ¬ "[]".toList <:+ (mark b w).toList := by
  cases b with
  | false => exact h rfl
  | true => exact not_brackets_isSuffix_append w (by decide) (by decide)

/-- Only arrays without a nullable mark are spelled with brackets at the end. -/
theorem not_brackets_isSuffix_csharp {t : TypeExpr} (ht : t.WellFormed)
    (harray : ∀ elem, t ≠ array false elem) : ¬ "[]".toList <:+ t.csharp.toList := by
  cases t with
  | scalar b kind => exact not_brackets_isSuffix_mark fun _ => by cases kind <;> decide
  | enum b name =>
    have hname : IsName name.toList := ht
    exact not_brackets_isSuffix_mark fun _ => hname.no_brackets
  | composite b name =>
    have hname : IsCompositeName name.toList := ht
    exact not_brackets_isSuffix_mark fun _ => hname.no_brackets
  | array b elem => exact not_brackets_isSuffix_mark fun hb => absurd (hb ▸ rfl) (harray elem)
  | list b elem =>
    exact not_brackets_isSuffix_mark fun _ =>
      not_brackets_isSuffix_append ("List<" ++ elem.csharp) (by decide) (by decide)
  | dictionary b key value =>
    exact not_brackets_isSuffix_mark fun _ =>
      not_brackets_isSuffix_append ("Dictionary<" ++ key.csharp ++ ", " ++ value.csharp)
        (by decide) (by decide)

end TypeExpr

namespace Conversion

open TypeExpr

/-! ## Stripping brackets -/

theorem stripRanks_brackets (cs : List Char) :
    stripRanks (cs ++ "[]".toList).reverse =
      ((stripRanks cs.reverse).1, (stripRanks cs.reverse).2 + 1) := by
  rw [List.reverse_append]
  rfl

theorem stripRanks_of_not_isSuffix {cs : List Char} (h : ¬ "[]".toList <:+ cs) :
    stripRanks cs.reverse = (cs.reverse, 0) := by
  unfold stripRanks
  split
  · next rest hrest =>
    refine absurd ⟨rest.reverse, ?_⟩ h
    rw [← List.reverse_reverse cs, hrest]
    simp
  · rfl

/-- One pair of brackets is stripped for each array layer, and none that belongs to the type under
them. -/
theorem stripRanks_csharp {t : TypeExpr} (ht : t.WellFormed) :
    stripRanks t.csharp.toList.reverse = (t.underRanks.csharp.toList.reverse, t.ranks) := by
  fun_induction ranks t with
  | case1 elem ih =>
    have hspelling : (array false elem).csharp.toList = elem.csharp.toList ++ "[]".toList :=
      String.toList_append
    rw [hspelling, stripRanks_brackets, ih ht, underRanks]
  | case2 t h =>
    rw [underRanks_eq_self h, stripRanks_of_not_isSuffix (not_brackets_isSuffix_csharp ht h)]

/-! ## Main statement -/

/-- A type that can be read has so many array layers around a type that is no array without a
nullable mark. Stripping the brackets from its spelling ends after as many steps, with the spelling
of that type; the count is put there, before the brackets of the layers. -/
theorem arrayAllocation_csharp {text : String} {elem : TypeExpr} (h : parse text = .ok elem) :
    (array false)^[elem.ranks] elem.underRanks = elem ∧
    (∀ t, elem.underRanks ≠ array false t) ∧
    stripRanks elem.csharp.toList.reverse = (elem.underRanks.csharp.toList.reverse, elem.ranks) ∧
    ∀ count : String, arrayAllocation elem.csharp count =
      "new " ++ elem.underRanks.csharp ++ "[" ++ count ++ "]" ++ rankText elem.ranks := by
  have hstrip := stripRanks_csharp (wellFormed_of_parse h)
  refine ⟨iterate_array_underRanks elem, underRanks_ne_array elem, hstrip, fun count => ?_⟩
  rw [arrayAllocation, hstrip]
  simp only [List.reverse_reverse, String.ofList_toList]

/-- Two layers around a nullable array, whose own brackets stay before the count. -/
theorem arrayAllocation_of_nullable_inner :
    parse "enum Color[]?[][]" =
      .ok (array false (array false (array true (enum false "Color")))) ∧
    arrayAllocation (array false (array false (array true (enum false "Color")))).csharp "n" =
      "new Color[]?[n][][]" := by
  have hread : parse "enum Color[]?[][]" =
      .ok (array false (array false (array true (enum false "Color")))) := by
    decide +kernel
  refine ⟨hread, ((arrayAllocation_csharp hread).2.2.2 "n").trans ?_⟩
  decide +kernel

end Conversion

end Marshal
