import ShaderPipeline.Program

/-!
# Walking the tree

The parts of an expression are listed parents first and operands from left to
right; the statements of a block are listed in order, each before the blocks
nested in it. Everything that looks for occurrences in a body reads these lists.
Calls are listed a second time in the order in which they finish, arguments
before the call.
-/

namespace ShaderPipeline

namespace Expr

mutual

/-- An expression and all its parts, parents first. -/
def nodes : Expr → List Expr
  | const value => [const value]
  | var id => [var id]
  | field base position => field base position :: base.nodes
  | index base position => index base position :: (base.nodes ++ position.nodes)
  | unary op operand => unary op operand :: operand.nodes
  | binary op left right => binary op left right :: (left.nodes ++ right.nodes)
  | construct type args => construct type args :: nodesOfAll args
  | call callee args => call callee args :: nodesOfAll args
  | sample sampler coordinates => sample sampler coordinates :: (sampler.nodes ++ coordinates.nodes)
  | addressOf operand => addressOf operand :: operand.nodes
termination_by structural expr => expr

/-- The parts of several expressions, in order. -/
def nodesOfAll : List Expr → List Expr
  | [] => []
  | arg :: args => arg.nodes ++ nodesOfAll args
termination_by structural args => args

end

/-- The parts of several expressions are those of each of them. -/
theorem nodesOfAll_eq_flatMap (args : List Expr) : nodesOfAll args = args.flatMap nodes := by
  induction args with
  | nil => rfl
  | cons arg args inductionHypothesis => simp [nodesOfAll, inductionHypothesis]

mutual

/-- The functions that an expression calls, in the order in which the calls finish. -/
def calls : Expr → List FunctionId
  | const _ => []
  | var _ => []
  | field base _ => base.calls
  | index base position => base.calls ++ position.calls
  | unary _ operand => operand.calls
  | binary _ left right => left.calls ++ right.calls
  | construct _ args => callsOfAll args
  | call callee args => callsOfAll args ++ [callee]
  | sample sampler coordinates => sampler.calls ++ coordinates.calls
  | addressOf operand => operand.calls
termination_by structural expr => expr

/-- The functions that several expressions call, in order. -/
def callsOfAll : List Expr → List FunctionId
  | [] => []
  | arg :: args => arg.calls ++ callsOfAll args
termination_by structural args => args

end

/-- The calls of several expressions are those of each of them. -/
theorem callsOfAll_eq_flatMap (args : List Expr) : callsOfAll args = args.flatMap calls := by
  induction args with
  | nil => rfl
  | cons arg args inductionHypothesis => simp [callsOfAll, inductionHypothesis]

/-- The variable that an expression is. -/
def symbol? : Expr → Option VariableId
  | var id => some id
  | _ => none

end Expr

namespace Stmt

/-- The expressions that are directly part of a statement, not those in nested blocks. -/
def ownExprs : Stmt → List Expr
  | declare _ initial => initial.toList
  | eval value => [value]
  | assign target value => [target, value]
  | ifThen condition _ => [condition]
  | ifElse condition _ _ => [condition]
  | loop condition _ => [condition]
  | block _ => []
  | ret value => value.toList
  | brk => []
  | cont => []
  | discard => []

mutual

/-- A statement and all statements nested in it, each before those nested in it. -/
def nodes : Stmt → List Stmt
  | declare id initial => [declare id initial]
  | eval value => [eval value]
  | assign target value => [assign target value]
  | ifThen condition yes => ifThen condition yes :: nodesOfAll yes
  | ifElse condition yes no => ifElse condition yes no :: (nodesOfAll yes ++ nodesOfAll no)
  | loop condition body => loop condition body :: nodesOfAll body
  | block body => block body :: nodesOfAll body
  | ret value => [ret value]
  | brk => [brk]
  | cont => [cont]
  | discard => [discard]
termination_by structural stmt => stmt

/-- The statements of a block and those nested in them, in order. -/
def nodesOfAll : List Stmt → List Stmt
  | [] => []
  | stmt :: stmts => stmt.nodes ++ nodesOfAll stmts
termination_by structural stmts => stmts

end

/-- The statements of a block are those of each of its statements. -/
theorem nodesOfAll_eq_flatMap (stmts : List Stmt) : nodesOfAll stmts = stmts.flatMap nodes := by
  induction stmts with
  | nil => rfl
  | cons stmt stmts inductionHypothesis => simp [nodesOfAll, inductionHypothesis]

end Stmt

namespace Block

/-- All statements of a block, each before those nested in it. -/
def stmts (block : Block) : List Stmt := Stmt.nodesOfAll block

/-- All expressions of a block and their parts, statement by statement. -/
def exprs (block : Block) : List Expr :=
  block.stmts.flatMap fun stmt => stmt.ownExprs.flatMap Expr.nodes

/-- All mentions of variables in a block. -/
def symbols (block : Block) : List VariableId := block.exprs.filterMap Expr.symbol?

/-- The functions that a block calls, in the order in which the calls finish. -/
def calls (block : Block) : List FunctionId :=
  block.stmts.flatMap fun stmt => stmt.ownExprs.flatMap Expr.calls

end Block

/-! ## Kinds of nodes -/

/-- The kind of a statement. -/
inductive StmtKind where
  | declare
  | eval
  | assign
  | conditional
  | loop
  | block
  | ret
  | brk
  | cont
  | discard
deriving DecidableEq

/-- The kind that a statement has. -/
def Stmt.kind : Stmt → StmtKind
  | .declare _ _ => .declare
  | .eval _ => .eval
  | .assign _ _ => .assign
  | .ifThen _ _ => .conditional
  | .ifElse _ _ _ => .conditional
  | .loop _ _ => .loop
  | .block _ => .block
  | .ret _ => .ret
  | .brk => .brk
  | .cont => .cont
  | .discard => .discard

/-- The kind of an expression; constants are told apart by their type. -/
inductive ExprKind where
  | float
  | int
  | uint
  | bool
  | var
  | field
  | index
  | unary
  | binary
  | construct
  | call
  | sample
  | addressOf
deriving DecidableEq

/-- The kind that an expression has. -/
def Expr.kind : Expr → ExprKind
  | .const (.float _) => .float
  | .const (.int _) => .int
  | .const (.uint _) => .uint
  | .const (.bool _) => .bool
  | .var _ => .var
  | .field _ _ => .field
  | .index _ _ => .index
  | .unary _ _ => .unary
  | .binary _ _ _ => .binary
  | .construct _ _ => .construct
  | .call _ _ => .call
  | .sample _ _ => .sample
  | .addressOf _ => .addressOf

/-- What a walk through one definition sees. -/
structure BodyOutline where
  function : FunctionId
  stmts : List StmtKind
  exprs : List ExprKind

/-- What a walk through all definitions sees, in order. -/
def Program.outline (program : Program) : List BodyOutline :=
  program.definitions.map fun (function, body) =>
    ⟨function, (Block.stmts body).map Stmt.kind, (Block.exprs body).map Expr.kind⟩

end ShaderPipeline
