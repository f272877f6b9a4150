/-!
# Syntax trees of generated code

Statements, methods, and the compilation unit that holds one class in one namespace. Expressions,
types and names are texts that are already spelled; the tree has the structure that layout needs.
-/

namespace Marshal.Code

inductive Stmt where
  /-- A local variable, with the arguments of a constructor call or with a value, if any. -/
  | declare (type name : String) (construct value : Option String)
  | assign (left right : String)
  | expr (text : String)
  /-- Conditions with their branches, the first that holds being taken. -/
  | conditional (branches : List (String × List Stmt)) (otherwise : Option (List Stmt))
  | forLoop (start condition step : String) (body : List Stmt)
  | foreach (element items : String) (body : List Stmt)
  | ret (value : Option String)
  | blank
  deriving Repr, Inhabited

namespace Stmt

/-- A local variable with a value. -/
def define (type name value : String) : Stmt :=
  declare type name none (some value)

/-- A local variable that holds a new object. -/
def construct (type name args : String) : Stmt :=
  declare type name (some args) none

/-- A conditional with one branch. -/
def when (condition : String) (body : List Stmt) : Stmt :=
  conditional [(condition, body)] none

end Stmt

structure Method where
  modifiers : String
  returnType : String
  name : String
  params : List String
  body : List Stmt
  deriving Repr

structure CompilationUnit where
  usings : List String
  namespaceName : String
  classModifiers : String
  className : String
  methods : List Method
  deriving Repr

end Marshal.Code
