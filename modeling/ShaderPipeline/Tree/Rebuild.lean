import ShaderPipeline.Program

/-!
# Rebuilding the tree

A rebuild goes through the global declarations in order and asks hooks what to
do with each of them. Inside a body it rebuilds expressions from the inside out,
so a call hook is given the rebuilt arguments, and the hooks are told the
function whose body they are in. The hooks run in a monad: they may keep state
and may fail, and the first failure ends the rebuild.
-/

namespace ShaderPipeline

/-- What a rebuild asks. Every hook has a default that leaves the tree as it is. -/
structure Rebuilder (m : Type → Type) [Monad m] where
  /-- Whether a global variable stays. -/
  keeps : VariableId → m Bool := fun _ => pure true
  /-- The function that a prototype declares from now on. -/
  prototype : FunctionId → m FunctionId := pure
  /-- Whether the body of a definition is rebuilt. -/
  enters : FunctionId → m Bool := fun _ => pure true
  /-- What becomes of a definition once its body is done. -/
  definition : FunctionId → Block → m (FunctionId × Block) := fun function body =>
    pure (function, body)
  /-- What stands for a call in the body of `owner`. -/
  call : (owner callee : FunctionId) → List Expr → m Expr := fun _ callee args =>
    pure (.call callee args)
  /-- What stands for a mention of a variable in the body of `owner`. -/
  symbol : (owner : FunctionId) → VariableId → m Expr := fun _ id => pure (.var id)

variable {m : Type → Type} [Monad m]

namespace Expr

mutual

/-- Rebuilds an expression from the inside out. -/
def rebuild (hooks : Rebuilder m) (owner : FunctionId) : Expr → m Expr
  | const value => pure (const value)
  | var id => hooks.symbol owner id
  | field base position => do return field (← base.rebuild hooks owner) position
  | index base position => do
    let base ← base.rebuild hooks owner
    let position ← position.rebuild hooks owner
    return index base position
  | unary op operand => do return unary op (← operand.rebuild hooks owner)
  | binary op left right => do
    let left ← left.rebuild hooks owner
    let right ← right.rebuild hooks owner
    return binary op left right
  | construct type args => do return construct type (← rebuildAll hooks owner args)
  | call callee args => do hooks.call owner callee (← rebuildAll hooks owner args)
  | sample sampler coordinates => do
    let sampler ← sampler.rebuild hooks owner
    let coordinates ← coordinates.rebuild hooks owner
    return sample sampler coordinates
  | addressOf operand => do return addressOf (← operand.rebuild hooks owner)
termination_by structural expr => expr

/-- Rebuilds several expressions from left to right. -/
def rebuildAll (hooks : Rebuilder m) (owner : FunctionId) : List Expr → m (List Expr)
  | [] => pure []
  | arg :: args => do
    let arg ← arg.rebuild hooks owner
    let args ← rebuildAll hooks owner args
    return arg :: args
termination_by structural args => args

end

/-- Rebuilds an expression that may be absent. -/
def rebuildOption (hooks : Rebuilder m) (owner : FunctionId) : Option Expr → m (Option Expr)
  | none => pure none
  | some value => do return some (← value.rebuild hooks owner)

end Expr

namespace Stmt

mutual

/-- Rebuilds a statement: its own expressions first, then the blocks nested in it. -/
def rebuild (hooks : Rebuilder m) (owner : FunctionId) : Stmt → m Stmt
  | declare id initial => do return declare id (← Expr.rebuildOption hooks owner initial)
  | eval value => do return eval (← value.rebuild hooks owner)
  | assign target value => do
    let target ← target.rebuild hooks owner
    let value ← value.rebuild hooks owner
    return assign target value
  | ifThen condition yes => do
    let condition ← condition.rebuild hooks owner
    let yes ← rebuildAll hooks owner yes
    return ifThen condition yes
  | ifElse condition yes no => do
    let condition ← condition.rebuild hooks owner
    let yes ← rebuildAll hooks owner yes
    let no ← rebuildAll hooks owner no
    return ifElse condition yes no
  | loop condition body => do
    let condition ← condition.rebuild hooks owner
    let body ← rebuildAll hooks owner body
    return loop condition body
  | block body => do return block (← rebuildAll hooks owner body)
  | ret value => do return ret (← Expr.rebuildOption hooks owner value)
  | brk => pure brk
  | cont => pure cont
  | discard => pure discard
termination_by structural stmt => stmt

/-- Rebuilds the statements of a block from first to last. -/
def rebuildAll (hooks : Rebuilder m) (owner : FunctionId) : List Stmt → m (List Stmt)
  | [] => pure []
  | stmt :: stmts => do
    let stmt ← stmt.rebuild hooks owner
    let stmts ← rebuildAll hooks owner stmts
    return stmt :: stmts
termination_by structural stmts => stmts

end

end Stmt

/-- Rebuilds one global declaration, which may go away. -/
def Global.rebuild (hooks : Rebuilder m) : Global → m (Option Global)
  | .struct type => pure (some (.struct type))
  | .var id => do return if ← hooks.keeps id then some (.var id) else none
  | .prototype function => do return some (.prototype (← hooks.prototype function))
  | .definition function body => do
    let body ← if ← hooks.enters function then Stmt.rebuildAll hooks function body else pure body
    let (function, body) ← hooks.definition function body
    return some (.definition function body)

/-- Rebuilds the global declarations in order. -/
def Global.rebuildAll (hooks : Rebuilder m) : List Global → m (List Global)
  | [] => pure []
  | first :: rest => do
    let first ← first.rebuild hooks
    let rest ← rebuildAll hooks rest
    return first.toList ++ rest

end ShaderPipeline
