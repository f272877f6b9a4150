import Marshal.Code.Stmt

/-!
# Layout of generated code

Code is laid out as lines that know their depth; a line of depth `d` is indented by `4 * d` spaces.
A block stands one level deeper than the lines that open and close it. The primitives that open,
continue and close a block give the depth of the text that follows them.
-/

namespace Marshal.Code

inductive Line where
  | blank
  | code (depth : Nat) (text : String)
  /-- A line without a line feed after it. -/
  | last (depth : Nat) (text : String)
  deriving Repr, DecidableEq

def indentation (depth : Nat) : String :=
  String.ofList (List.replicate (4 * depth) ' ')

def Line.text : Line → String
  | .blank => "\n"
  | .code depth text => indentation depth ++ text ++ "\n"
  | .last depth text => indentation depth ++ text

def textOf (lines : List Line) : String :=
  String.join (lines.map Line.text)

/-! ## Blocks -/

/-- Lines, and the depth of what follows them. -/
structure Stretch where
  lines : List Line
  depth : Nat
  deriving Repr, DecidableEq

def openBlock (depth : Nat) (header : String) : Stretch where
  lines := [.code depth (header ++ " \x7b")]
  depth := depth + 1

/-- Closes the block whose body stands at `bodyDepth`, and opens another at the same place. -/
def continueBlock (bodyDepth : Nat) (header : String) : Stretch where
  lines := [.code (bodyDepth - 1) ("\x7d " ++ header ++ " \x7b")]
  depth := bodyDepth - 1 + 1

def closeBlock (bodyDepth : Nat) : Stretch where
  lines := [.code (bodyDepth - 1) "\x7d"]
  depth := bodyDepth - 1

/-- A whole block. Its body is laid out at the depth that opening the block gives. -/
def block (depth : Nat) (header : String) (body : Nat → List Line) : List Line :=
  let start := openBlock depth header
  start.lines ++ body start.depth ++ (closeBlock start.depth).lines

theorem openBlock_depth (depth : Nat) (header : String) :
    (openBlock depth header).depth = depth + 1 := rfl

theorem continueBlock_depth (depth : Nat) (header : String) :
    (continueBlock (depth + 1) header).depth = depth + 1 := rfl

/-! ## Statements -/

def declaration (type name : String) (construct value : Option String) : String :=
  type ++ " " ++ name
    ++ (match construct with
      | some args => " = new " ++ type ++ "(" ++ args ++ ")"
      | none => "")
    ++ (match value with
      | some value => " = " ++ value
      | none => "")
    ++ ";"

/-- A return without a value, or with the empty text as its value, is bare. -/
def returnText : Option String → String
  | none => "return;"
  | some value => if value = "" then "return;" else "return " ++ value ++ ";"

/-- The start of a branch of a conditional at `depth`. The first branch opens the block, and each
later one continues the block whose body stands at `bodyDepth`. -/
def branchStart (depth bodyDepth : Nat) (isFirst : Bool) (condition : String) : Stretch :=
  if isFirst then openBlock depth ("if (" ++ condition ++ ")")
  else continueBlock bodyDepth ("else if (" ++ condition ++ ")")

mutual

def Stmt.lines (depth : Nat) : Stmt → List Line
  | .declare type name construct value => [.code depth (declaration type name construct value)]
  | .assign left right => [.code depth (left ++ " = " ++ right ++ ";")]
  | .expr text => [.code depth (text ++ ";")]
  | .conditional branches otherwise =>
    let taken := branchStretch depth (depth + 1) true branches
    let last := otherwiseStretch taken.depth otherwise
    taken.lines ++ last.lines ++ (closeBlock last.depth).lines
  | .forLoop start condition step body =>
    block depth ("for (" ++ start ++ "; " ++ condition ++ "; " ++ step ++ ")")
      fun bodyDepth => stmtLines bodyDepth body
  | .foreach element items body =>
    block depth ("foreach (var " ++ element ++ " in " ++ items ++ ")")
      fun bodyDepth => stmtLines bodyDepth body
  | .ret value => [.code depth (returnText value)]
  | .blank => [.blank]

def stmtLines (depth : Nat) : List Stmt → List Line
  | [] => []
  | stmt :: rest => stmt.lines depth ++ stmtLines depth rest

/-- The branches of a conditional at `depth`, where a body before them stands at `bodyDepth`. -/
def branchStretch (depth bodyDepth : Nat) (isFirst : Bool) : List (String × List Stmt) → Stretch
  | [] => { lines := [], depth := bodyDepth }
  | (condition, body) :: rest =>
    let start := branchStart depth bodyDepth isFirst condition
    let later := branchStretch depth start.depth false rest
    { lines := start.lines ++ stmtLines start.depth body ++ later.lines, depth := later.depth }

/-- The last branch, which has no condition. -/
def otherwiseStretch (bodyDepth : Nat) : Option (List Stmt) → Stretch
  | none => { lines := [], depth := bodyDepth }
  | some body =>
    let start := continueBlock bodyDepth "else"
    { lines := start.lines ++ stmtLines start.depth body, depth := start.depth }

end

/-! ## Depths of conditionals

All branches of a conditional stand one level deeper than the conditional, whichever primitives
their depths come from. -/

theorem branchStart_depth (depth : Nat) (isFirst : Bool) (condition : String) :
    (branchStart depth (depth + 1) isFirst condition).depth = depth + 1 := by
  cases isFirst
  · exact continueBlock_depth depth _
  · exact openBlock_depth depth _

theorem branchStretch_depth (depth : Nat) (isFirst : Bool) (branches : List (String × List Stmt)) :
    (branchStretch depth (depth + 1) isFirst branches).depth = depth + 1 := by
  induction branches generalizing isFirst with
  | nil => simp [branchStretch]
  | cons branch rest ih =>
    obtain ⟨condition, body⟩ := branch
    rw [branchStretch, branchStart_depth]
    exact ih false

theorem otherwiseStretch_depth (depth : Nat) (otherwise : Option (List Stmt)) :
    (otherwiseStretch (depth + 1) otherwise).depth = depth + 1 := by
  cases otherwise <;> simp [otherwiseStretch, continueBlock_depth]

theorem Stmt.lines_conditional (depth : Nat) (branches : List (String × List Stmt))
    (otherwise : Option (List Stmt)) :
    (Stmt.conditional branches otherwise).lines depth =
      (branchStretch depth (depth + 1) true branches).lines
        ++ (otherwiseStretch (depth + 1) otherwise).lines ++ (closeBlock (depth + 1)).lines := by
  rw [Stmt.lines, branchStretch_depth, otherwiseStretch_depth]

theorem branchStretch_cons_lines (depth : Nat) (isFirst : Bool) (condition : String)
    (body : List Stmt) (rest : List (String × List Stmt)) :
    (branchStretch depth (depth + 1) isFirst ((condition, body) :: rest)).lines =
      (branchStart depth (depth + 1) isFirst condition).lines ++ stmtLines (depth + 1) body
        ++ (branchStretch depth (depth + 1) false rest).lines := by
  rw [branchStretch, branchStart_depth]

theorem otherwiseStretch_some_lines (depth : Nat) (body : List Stmt) :
    (otherwiseStretch (depth + 1) (some body)).lines =
      (continueBlock (depth + 1) "else").lines ++ stmtLines (depth + 1) body := by
  rw [otherwiseStretch, continueBlock_depth]

/-! ## Methods and units -/

def Method.header (m : Method) : String :=
  m.modifiers ++ " " ++ m.returnType ++ " " ++ m.name ++ "(" ++ String.intercalate ", " m.params
    ++ ")"

def Method.lines (depth : Nat) (m : Method) : List Line :=
  block depth m.header fun bodyDepth => stmtLines bodyDepth m.body

/-- The text of a method on its own. -/
def Method.text (m : Method) : String :=
  textOf (m.lines 0)

namespace CompilationUnit

def usingLines (u : CompilationUnit) : List Line :=
  u.usings.map (fun name => .code 0 ("using " ++ name ++ ";"))
    ++ if u.usings = [] then [] else [.blank]

/-- The usings, and the start of the namespace and of the class. -/
def openUnit (depth : Nat) (u : CompilationUnit) : Stretch :=
  let space := openBlock depth ("namespace " ++ u.namespaceName)
  let cls := openBlock space.depth (u.classModifiers ++ " class " ++ u.className)
  { lines := u.usingLines ++ space.lines ++ cls.lines, depth := cls.depth }

/-- The end of the class and of the namespace. No line feed follows the last brace. -/
def closeUnit (memberDepth : Nat) : Stretch :=
  let cls := closeBlock memberDepth
  { lines := cls.lines ++ [.last (cls.depth - 1) "\x7d"], depth := cls.depth - 1 }

def lines (u : CompilationUnit) : List Line :=
  let start := openUnit 0 u
  start.lines ++ u.methods.flatMap (fun m => m.lines start.depth ++ [.blank])
    ++ (closeUnit start.depth).lines

def render (u : CompilationUnit) : String :=
  textOf u.lines

end CompilationUnit

end Marshal.Code
