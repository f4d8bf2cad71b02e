import ShaderPipeline.Expr

/-!
# Statements and global declarations

A block is a list of statements. A conditional without an alternative differs
from one whose alternative is empty, so the two are different constructors.
-/

namespace ShaderPipeline

/-- A statement. -/
inductive Stmt where
  | declare (id : VariableId) (initial : Option Expr)
  | eval (value : Expr)
  | assign (target value : Expr)
  | ifThen (condition : Expr) (yes : List Stmt)
  | ifElse (condition : Expr) (yes no : List Stmt)
  | loop (condition : Expr) (body : List Stmt)
  | block (body : List Stmt)
  | ret (value : Option Expr)
  | brk
  | cont
  | discard

/-- A sequence of statements. -/
abbrev Block := List Stmt

/-- A declaration in the global scope. -/
inductive Global where
  | struct (type : TypeId)
  | var (id : VariableId)
  | prototype (function : FunctionId)
  | definition (function : FunctionId) (body : Block)

namespace Global

/-- The function that a declaration defines, with its body. -/
def definition? : Global → Option (FunctionId × Block)
  | definition function body => some (function, body)
  | _ => none

/-- The variable that a declaration introduces. -/
def declared? : Global → Option VariableId
  | var id => some id
  | _ => none

/-- The function that a declaration makes callable. -/
def function? : Global → Option FunctionId
  | prototype function => some function
  | definition function _ => some function
  | _ => none

end Global

end ShaderPipeline
