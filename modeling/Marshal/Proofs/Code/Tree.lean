import Marshal.Code.Stmt
import Marshal.Proofs.Text.Free

/-!
# Looking into statement trees

The blocks of a body are the body itself and the bodies of its conditionals and loops, at every
depth. `Every` says something of all statements in them, and `texts` collects what they spell.
-/

namespace Marshal.Code

/-! ## Blocks -/

mutual

/-- The blocks inside a statement, at every depth. -/
def Stmt.blocks : Stmt → List (List Stmt)
  | .conditional branches otherwise => branchBlocks branches ++ otherwiseBlocks otherwise
  | .forLoop _ _ _ body => body :: innerBlocks body
  | .foreach _ _ body => body :: innerBlocks body
  | _ => []

def innerBlocks : List Stmt → List (List Stmt)
  | [] => []
  | stmt :: rest => stmt.blocks ++ innerBlocks rest

def branchBlocks : List (String × List Stmt) → List (List Stmt)
  | [] => []
  | (_, body) :: rest => body :: innerBlocks body ++ branchBlocks rest

def otherwiseBlocks : Option (List Stmt) → List (List Stmt)
  | none => []
  | some body => body :: innerBlocks body

end

attribute [simp] Stmt.blocks innerBlocks branchBlocks otherwiseBlocks

def blocks (body : List Stmt) : List (List Stmt) :=
  body :: innerBlocks body

theorem innerBlocks_eq_flatMap (body : List Stmt) :
    innerBlocks body = body.flatMap Stmt.blocks := by
  induction body with
  | nil => simp
  | cons stmt rest ih => simp [ih]

theorem branchBlocks_eq_flatMap (branches : List (String × List Stmt)) :
    branchBlocks branches = branches.flatMap fun branch => blocks branch.2 := by
  induction branches with
  | nil => simp
  | cons branch rest ih => simp [blocks, ih]

theorem otherwiseBlocks_eq_flatMap (otherwise : Option (List Stmt)) :
    otherwiseBlocks otherwise = otherwise.toList.flatMap blocks := by
  cases otherwise <;> simp [blocks]

/-! ## All statements of a body -/

/-- `p` holds of every statement inside this one, at every depth. -/
def Stmt.Inside (p : Stmt → Prop) (stmt : Stmt) : Prop :=
  ∀ block ∈ stmt.blocks, ∀ inner ∈ block, p inner

/-- `p` holds of every statement of a body, at every depth. -/
def Every (p : Stmt → Prop) (body : List Stmt) : Prop :=
  ∀ block ∈ blocks body, ∀ stmt ∈ block, p stmt

variable {p q : Stmt → Prop}

theorem every_iff {body : List Stmt} :
    Every p body ↔ ∀ stmt ∈ body, p stmt ∧ stmt.Inside p := by
  simp only [Every, Stmt.Inside, blocks, innerBlocks_eq_flatMap, List.forall_mem_cons,
    List.forall_mem_flatMap, forall_and]

@[simp] theorem every_nil : Every p [] := by
  simp [every_iff]

@[simp] theorem every_cons {stmt : Stmt} {rest : List Stmt} :
    Every p (stmt :: rest) ↔ (p stmt ∧ stmt.Inside p) ∧ Every p rest := by
  simp only [every_iff, List.forall_mem_cons]

@[simp] theorem every_append {body rest : List Stmt} :
    Every p (body ++ rest) ↔ Every p body ∧ Every p rest := by
  simp only [every_iff, List.forall_mem_append]

@[simp] theorem every_flatMap {α : Type} {items : List α} {f : α → List Stmt} :
    Every p (items.flatMap f) ↔ ∀ item ∈ items, Every p (f item) := by
  simp only [every_iff, List.forall_mem_flatMap]

theorem Every.imp {body : List Stmt} (h : Every p body) (hpq : ∀ stmt, p stmt → q stmt) :
    Every q body :=
  fun block hblock stmt hstmt => hpq stmt (h block hblock stmt hstmt)

section Inside

@[simp] theorem inside_declare {type name : String} {construct value : Option String} :
    (Stmt.declare type name construct value).Inside p := by
  simp [Stmt.Inside]

@[simp] theorem inside_assign {left right : String} : (Stmt.assign left right).Inside p := by
  simp [Stmt.Inside]

@[simp] theorem inside_expr {text : String} : (Stmt.expr text).Inside p := by
  simp [Stmt.Inside]

@[simp] theorem inside_ret {value : Option String} : (Stmt.ret value).Inside p := by
  simp [Stmt.Inside]

@[simp] theorem inside_blank : Stmt.blank.Inside p := by
  simp [Stmt.Inside]

@[simp] theorem inside_forLoop {start condition step : String} {body : List Stmt} :
    (Stmt.forLoop start condition step body).Inside p ↔ Every p body := by
  simp only [Stmt.Inside, Stmt.blocks, Every, blocks]

@[simp] theorem inside_foreach {element items : String} {body : List Stmt} :
    (Stmt.foreach element items body).Inside p ↔ Every p body := by
  simp only [Stmt.Inside, Stmt.blocks, Every, blocks]

@[simp] theorem inside_conditional {branches : List (String × List Stmt)}
    {otherwise : Option (List Stmt)} :
    (Stmt.conditional branches otherwise).Inside p ↔
      (∀ branch ∈ branches, Every p branch.2) ∧ ∀ body ∈ otherwise, Every p body := by
  simp only [Stmt.Inside, Stmt.blocks, branchBlocks_eq_flatMap, otherwiseBlocks_eq_flatMap,
    List.forall_mem_append, List.forall_mem_flatMap, Option.mem_toList, Option.mem_def, Every]

@[simp] theorem inside_define {type name value : String} : (Stmt.define type name value).Inside p :=
  inside_declare

@[simp] theorem inside_construct {type name args : String} :
    (Stmt.construct type name args).Inside p :=
  inside_declare

@[simp] theorem inside_when {condition : String} {body : List Stmt} :
    (Stmt.when condition body).Inside p ↔ Every p body := by
  simp [Stmt.when]

end Inside

/-! ## Texts -/

/-- What a statement spells itself, apart from the blocks inside it. -/
@[simp] def Stmt.texts : Stmt → List String
  | .declare type name construct value => type :: name :: (construct.toList ++ value.toList)
  | .assign left right => [left, right]
  | .expr text => [text]
  | .conditional branches _ => branches.map Prod.fst
  | .forLoop start condition step _ => [start, condition, step]
  | .foreach element items _ => [element, items]
  | .ret value => value.toList
  | .blank => []

/-- The texts of all statements of a body. -/
def bodyTexts (body : List Stmt) : List String :=
  (blocks body).flatMap fun block => block.flatMap Stmt.texts

def Method.texts (m : Method) : List String :=
  m.modifiers :: m.returnType :: m.name :: (m.params ++ bodyTexts m.body)

def CompilationUnit.texts (u : CompilationUnit) : List String :=
  u.usings ++ u.namespaceName :: u.classModifiers :: u.className :: u.methods.flatMap Method.texts

/-- The statement itself spells none of the characters `bad`. -/
def Stmt.Avoids (bad : List Char) (stmt : Stmt) : Prop :=
  ∀ text ∈ stmt.texts, Text.Free bad text

theorem every_avoids_iff {bad : List Char} {body : List Stmt} :
    Every (Stmt.Avoids bad) body ↔ ∀ text ∈ bodyTexts body, Text.Free bad text := by
  simp only [Every, Stmt.Avoids, bodyTexts, List.forall_mem_flatMap]

theorem Stmt.Avoids.mono {bad bad' : List Char} (hsub : bad' ⊆ bad) (stmt : Stmt)
    (h : stmt.Avoids bad) : stmt.Avoids bad' :=
  fun text htext => (h text htext).mono hsub

/-! ## Values and variables -/

/-- The expressions that a statement evaluates, apart from conditions and the heads of loops. -/
@[simp] def Stmt.values : Stmt → List String
  | .declare _ _ construct value => construct.toList ++ value.toList
  | .assign _ right => [right]
  | .expr text => [text]
  | .ret value => value.toList
  | _ => []

/-- The variable that a statement declares. -/
@[simp] def Stmt.declared? : Stmt → Option String
  | .declare _ name _ _ => some name
  | _ => none

/-! ## Branches -/

/-- A conditional has a branch. -/
@[simp] def Stmt.HasBranch : Stmt → Prop
  | .conditional branches _ => branches ≠ []
  | _ => True

/-- The statement itself spells none of the characters `bad`, and is no conditional without a
branch. -/
def Stmt.IsPlain (bad : List Char) (stmt : Stmt) : Prop :=
  stmt.Avoids bad ∧ stmt.HasBranch

theorem every_isPlain_iff {bad : List Char} {body : List Stmt} :
    Every (Stmt.IsPlain bad) body ↔ Every (Stmt.Avoids bad) body ∧ Every Stmt.HasBranch body := by
  simp only [Every, Stmt.IsPlain, imp_and, forall_and]

section Plain

open Text

variable {bad : List Char}

@[simp] theorem isPlain_define {type name value : String} :
    (Stmt.define type name value).IsPlain bad ↔ Free bad type ∧ Free bad name ∧ Free bad value := by
  simp [Stmt.define, Stmt.IsPlain, Stmt.Avoids]

@[simp] theorem isPlain_construct {type name args : String} :
    (Stmt.construct type name args).IsPlain bad ↔
      Free bad type ∧ Free bad name ∧ Free bad args := by
  simp [Stmt.construct, Stmt.IsPlain, Stmt.Avoids]

@[simp] theorem isPlain_assign {left right : String} :
    (Stmt.assign left right).IsPlain bad ↔ Free bad left ∧ Free bad right := by
  simp [Stmt.IsPlain, Stmt.Avoids]

@[simp] theorem isPlain_expr {text : String} : (Stmt.expr text).IsPlain bad ↔ Free bad text := by
  simp [Stmt.IsPlain, Stmt.Avoids]

@[simp] theorem isPlain_ret {value : Option String} :
    (Stmt.ret value).IsPlain bad ↔ ∀ text ∈ value, Free bad text := by
  simp [Stmt.IsPlain, Stmt.Avoids]

@[simp] theorem isPlain_blank : Stmt.blank.IsPlain bad := by
  simp [Stmt.IsPlain, Stmt.Avoids]

@[simp] theorem isPlain_conditional {branches : List (String × List Stmt)}
    {otherwise : Option (List Stmt)} :
    (Stmt.conditional branches otherwise).IsPlain bad ↔
      (∀ branch ∈ branches, Free bad branch.1) ∧ branches ≠ [] := by
  simp [Stmt.IsPlain, Stmt.Avoids]

@[simp] theorem isPlain_when {condition : String} {body : List Stmt} :
    (Stmt.when condition body).IsPlain bad ↔ Free bad condition := by
  simp [Stmt.when]

@[simp] theorem isPlain_forLoop {start condition step : String} {body : List Stmt} :
    (Stmt.forLoop start condition step body).IsPlain bad ↔
      Free bad start ∧ Free bad condition ∧ Free bad step := by
  simp [Stmt.IsPlain, Stmt.Avoids]

@[simp] theorem isPlain_foreach {element items : String} {body : List Stmt} :
    (Stmt.foreach element items body).IsPlain bad ↔ Free bad element ∧ Free bad items := by
  simp [Stmt.IsPlain, Stmt.Avoids]

end Plain

/-- A method that spells none of the characters `bad` and whose conditionals have branches. -/
structure Method.IsPlain (bad : List Char) (m : Method) : Prop where
  free : ∀ text ∈ m.texts, Text.Free bad text
  branched : Every Stmt.HasBranch m.body

theorem Method.isPlain_iff {bad : List Char} {m : Method} :
    m.IsPlain bad ↔ (Text.Free bad m.modifiers ∧ Text.Free bad m.returnType ∧ Text.Free bad m.name ∧
      ∀ param ∈ m.params, Text.Free bad param) ∧ Every (Stmt.IsPlain bad) m.body := by
  have hiff : m.IsPlain bad ↔
      (∀ text ∈ m.texts, Text.Free bad text) ∧ Every Stmt.HasBranch m.body :=
    ⟨fun h => ⟨h.free, h.branched⟩, fun ⟨hfree, hbranched⟩ => ⟨hfree, hbranched⟩⟩
  simp only [hiff, Method.texts, List.forall_mem_cons, List.forall_mem_append,
    every_isPlain_iff, every_avoids_iff, and_assoc]

/-- A unit that spells none of the characters `bad` and whose conditionals have branches. -/
structure CompilationUnit.IsPlain (bad : List Char) (u : CompilationUnit) : Prop where
  free : ∀ text ∈ u.texts, Text.Free bad text
  branched : ∀ m ∈ u.methods, Every Stmt.HasBranch m.body

end Marshal.Code
