import Mathlib.Data.List.DropRight
import Marshal.Proofs.Code.Tree
import Marshal.Text.Basic

/-!
# Scopes of local variables

A block is a scope, and so is the head of a loop, whose variable the block of the loop sees. A scope
is legal if it adds no name twice and none that is visible around it. `Fits` says that a block and
all scopes in it are legal. It is taken apart statement by statement (`fits_iff`).
-/

namespace Marshal.Code

/-! ## Names in texts -/

/-- What follows the last space of a text. -/
def lastWord (text : List Char) : String :=
  String.ofList (text.rtakeWhile (· ≠ ' '))

/-- The variable that the start of a loop declares, which stands behind a type. A start of one word
declares none. -/
def startVariable? (start : String) : Option String :=
  let head := Text.trim (start.toList.takeWhile (· ≠ '='))
  if ' ' ∈ head then some (lastWord head) else none

/-- The names of the parameters, which stand behind their types. -/
def Method.paramNames (m : Method) : List String :=
  m.params.map fun param => lastWord param.toList

theorem lastWord_append {name : List Char} (h : ' ' ∉ name) (before : List Char) :
    lastWord (before ++ ' ' :: name) = String.ofList name := by
  have hname : ∀ c ∈ name.reverse, decide (c ≠ ' ') = true := by
    simp only [List.mem_reverse, decide_eq_true_eq]
    exact fun c hc heq => h (heq ▸ hc)
  rw [lastWord, List.rtakeWhile, List.reverse_append, List.reverse_cons, List.append_assoc,
    List.takeWhile_append_of_pos hname]
  simp

/-! ## Scopes -/

structure Scope where
  /-- The names that are visible around the scope. -/
  around : List String
  /-- The names that the scope adds. -/
  own : List String

/-- The scope adds no name twice, and none that is visible around it. -/
def Scope.Legal (scope : Scope) : Prop :=
  scope.own.Nodup ∧ ∀ name ∈ scope.own, name ∉ scope.around

instance (scope : Scope) : Decidable scope.Legal :=
  inferInstanceAs (Decidable (_ ∧ _))

/-- The variables that a block declares itself. -/
def locals (block : List Stmt) : List String :=
  block.filterMap Stmt.declared?

@[simp] theorem locals_nil : locals [] = [] :=
  rfl

@[simp] theorem locals_cons {stmt : Stmt} {rest : List Stmt} :
    locals (stmt :: rest) = stmt.declared?.toList ++ locals rest := by
  rw [locals, List.filterMap_cons]
  cases stmt.declared? <;> rfl

theorem locals_eq_nil {block : List Stmt} (h : ∀ stmt ∈ block, stmt.declared? = none) :
    locals block = [] :=
  List.filterMap_eq_nil_iff.2 h

@[simp] theorem locals_append {block rest : List Stmt} :
    locals (block ++ rest) = locals block ++ locals rest :=
  List.filterMap_append

mutual

/-- The scopes inside a statement around which the names `around` are visible. -/
def Stmt.scopes (around : List String) : Stmt → List Scope
  | .conditional branches otherwise =>
    branchScopes around branches ++ otherwiseScopes around otherwise
  | .forLoop start _ _ body =>
    let head := (startVariable? start).toList
    ⟨around, head⟩ :: ⟨head ++ around, locals body⟩ ::
      innerScopes (locals body ++ (head ++ around)) body
  | .foreach element _ body =>
    ⟨around, [element]⟩ :: ⟨element :: around, locals body⟩ ::
      innerScopes (locals body ++ (element :: around)) body
  | _ => []

def innerScopes (around : List String) : List Stmt → List Scope
  | [] => []
  | stmt :: rest => stmt.scopes around ++ innerScopes around rest

def branchScopes (around : List String) : List (String × List Stmt) → List Scope
  | [] => []
  | (_, body) :: rest =>
    ⟨around, locals body⟩ :: innerScopes (locals body ++ around) body ++ branchScopes around rest

def otherwiseScopes (around : List String) : Option (List Stmt) → List Scope
  | none => []
  | some body => ⟨around, locals body⟩ :: innerScopes (locals body ++ around) body

end

/-- A block and the scopes inside it, at every depth. -/
def blockScopes (around : List String) (block : List Stmt) : List Scope :=
  ⟨around, locals block⟩ :: innerScopes (locals block ++ around) block

theorem innerScopes_eq_flatMap (around : List String) (body : List Stmt) :
    innerScopes around body = body.flatMap (Stmt.scopes around) := by
  induction body with
  | nil => simp [innerScopes]
  | cons stmt rest ih => simp [innerScopes, ih]

theorem branchScopes_eq_flatMap (around : List String) (branches : List (String × List Stmt)) :
    branchScopes around branches = branches.flatMap fun branch => blockScopes around branch.2 := by
  induction branches with
  | nil => simp [branchScopes]
  | cons branch rest ih => simp [branchScopes, blockScopes, ih]

theorem otherwiseScopes_eq_flatMap (around : List String) (otherwise : Option (List Stmt)) :
    otherwiseScopes around otherwise = otherwise.toList.flatMap (blockScopes around) := by
  cases otherwise <;> simp [otherwiseScopes, blockScopes]

/-! ## Legal scopes -/

/-- The scopes of a block are legal, where the names `around` are visible around it. -/
def Fits (around : List String) (block : List Stmt) : Prop :=
  ∀ scope ∈ blockScopes around block, scope.Legal

instance (around : List String) (block : List Stmt) : Decidable (Fits around block) :=
  inferInstanceAs (Decidable (∀ scope ∈ blockScopes around block, scope.Legal))

/-- The scopes inside a statement are legal. -/
def Stmt.FitsIn (around : List String) (stmt : Stmt) : Prop :=
  ∀ scope ∈ stmt.scopes around, scope.Legal

variable {around : List String}

theorem fits_iff {block : List Stmt} :
    Fits around block ↔ (locals block).Nodup ∧ (∀ name ∈ locals block, name ∉ around) ∧
      ∀ stmt ∈ block, stmt.FitsIn (locals block ++ around) := by
  simp only [Fits, blockScopes, List.forall_mem_cons, Scope.Legal, innerScopes_eq_flatMap,
    List.forall_mem_flatMap, Stmt.FitsIn, and_assoc]

@[simp] theorem fitsIn_declare {type name : String} {construct value : Option String} :
    (Stmt.declare type name construct value).FitsIn around := by
  simp [Stmt.FitsIn, Stmt.scopes]

@[simp] theorem fitsIn_assign {left right : String} : (Stmt.assign left right).FitsIn around := by
  simp [Stmt.FitsIn, Stmt.scopes]

@[simp] theorem fitsIn_expr {text : String} : (Stmt.expr text).FitsIn around := by
  simp [Stmt.FitsIn, Stmt.scopes]

@[simp] theorem fitsIn_ret {value : Option String} : (Stmt.ret value).FitsIn around := by
  simp [Stmt.FitsIn, Stmt.scopes]

@[simp] theorem fitsIn_blank : Stmt.blank.FitsIn around := by
  simp [Stmt.FitsIn, Stmt.scopes]

@[simp] theorem fitsIn_forLoop {start condition step : String} {body : List Stmt} :
    (Stmt.forLoop start condition step body).FitsIn around ↔
      (∀ name ∈ startVariable? start, name ∉ around) ∧
        Fits ((startVariable? start).toList ++ around) body := by
  have hhead : (startVariable? start).toList.Nodup := by
    cases startVariable? start <;> simp
  simp only [Stmt.FitsIn, Stmt.scopes, Fits, blockScopes, List.forall_mem_cons, Scope.Legal, hhead,
    true_and, Option.mem_toList, Option.mem_def]

@[simp] theorem fitsIn_foreach {element items : String} {body : List Stmt} :
    (Stmt.foreach element items body).FitsIn around ↔
      element ∉ around ∧ Fits (element :: around) body := by
  have hhead : [element].Nodup := List.nodup_cons.2 ⟨List.not_mem_nil, List.nodup_nil⟩
  simp only [Stmt.FitsIn, Stmt.scopes, Fits, blockScopes, List.forall_mem_cons, Scope.Legal, hhead,
    true_and, List.not_mem_nil, false_imp_iff, implies_true, and_true]

@[simp] theorem fitsIn_conditional {branches : List (String × List Stmt)}
    {otherwise : Option (List Stmt)} :
    (Stmt.conditional branches otherwise).FitsIn around ↔
      (∀ branch ∈ branches, Fits around branch.2) ∧ ∀ body ∈ otherwise, Fits around body := by
  simp only [Stmt.FitsIn, Stmt.scopes, branchScopes_eq_flatMap, otherwiseScopes_eq_flatMap,
    List.forall_mem_append, List.forall_mem_flatMap, Option.mem_toList, Option.mem_def, Fits]

/-- A name that a block declares is taken in the blocks inside it, also where it is declared after
them. -/
example : ¬ Fits [] [.when "ready" [.define "int" "num" "1"], .define "int" "num" "2"] := by
  decide

end Marshal.Code
