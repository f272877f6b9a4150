import Marshal.Code.Stmt

/-!
# Where statements stand

A site is an occurrence of a statement, together with the conditions of the branches that it stands
in. The sites of a body are listed in the order of its text, at every depth. What is said of all
sites is said of every occurrence: a statement that stands in a branch may stand outside as well.
-/

namespace Marshal.Code

structure Site where
  /-- The conditions of the branches around the statement, the innermost first. -/
  conditions : List String
  stmt : Stmt

mutual

/-- The sites of a statement that stands in branches with the conditions `around`. -/
def Stmt.sites (around : List String) : Stmt → List Site
  | .conditional branches otherwise =>
    ⟨around, .conditional branches otherwise⟩
      :: (branchSites around branches ++ otherwiseSites around otherwise)
  | .forLoop start condition step body =>
    ⟨around, .forLoop start condition step body⟩ :: bodySites around body
  | .foreach element items body => ⟨around, .foreach element items body⟩ :: bodySites around body
  | stmt => [⟨around, stmt⟩]

def bodySites (around : List String) : List Stmt → List Site
  | [] => []
  | stmt :: rest => stmt.sites around ++ bodySites around rest

def branchSites (around : List String) : List (String × List Stmt) → List Site
  | [] => []
  | (condition, body) :: rest => bodySites (condition :: around) body ++ branchSites around rest

/-- Without a condition of its own, an `else` adds nothing to the conditions around it. -/
def otherwiseSites (around : List String) : Option (List Stmt) → List Site
  | none => []
  | some body => bodySites around body

end

attribute [simp] Stmt.sites branchSites otherwiseSites

theorem bodySites_eq_flatMap (around : List String) (body : List Stmt) :
    bodySites around body = body.flatMap (Stmt.sites around) := by
  induction body with
  | nil => simp [bodySites]
  | cons stmt rest ih => simp [bodySites, ih]

theorem bodySites_append (around : List String) (body rest : List Stmt) :
    bodySites around (body ++ rest) = bodySites around body ++ bodySites around rest := by
  simp only [bodySites_eq_flatMap, List.flatMap_append]

theorem bodySites_flatMap {α : Type} (around : List String) (items : List α)
    (f : α → List Stmt) :
    bodySites around (items.flatMap f) = items.flatMap fun item => bodySites around (f item) := by
  simp only [bodySites_eq_flatMap, List.flatMap_assoc]

end Marshal.Code
