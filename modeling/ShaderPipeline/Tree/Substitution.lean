import ShaderPipeline.Program

/-!
# Substitution

A substitution says what stands for every call, given its already substituted
arguments, and for every mention of a variable. Applying it changes nothing
else: the statements keep their structure, and what is put in is not looked at
again.
-/

namespace ShaderPipeline

/-- What stands for every call and for every mention of a variable. -/
structure Substitution where
  call : FunctionId → List Expr → Expr := .call
  symbol : VariableId → Expr := .var

namespace Expr

mutual

/-- Applies a substitution to an expression, innermost parts first. -/
def subst (change : Substitution) : Expr → Expr
  | const value => const value
  | var id => change.symbol id
  | field base position => field (base.subst change) position
  | index base position => index (base.subst change) (position.subst change)
  | unary op operand => unary op (operand.subst change)
  | binary op left right => binary op (left.subst change) (right.subst change)
  | construct type args => construct type (substAll change args)
  | call callee args => change.call callee (substAll change args)
  | sample sampler coordinates => sample (sampler.subst change) (coordinates.subst change)
  | addressOf operand => addressOf (operand.subst change)
termination_by structural expr => expr

/-- Applies a substitution to several expressions. -/
def substAll (change : Substitution) : List Expr → List Expr
  | [] => []
  | arg :: args => arg.subst change :: substAll change args
termination_by structural args => args

end

/-- Several expressions are substituted one by one. -/
theorem substAll_eq_map (change : Substitution) (args : List Expr) :
    substAll change args = args.map (subst change) := by
  induction args with
  | nil => rfl
  | cons arg args inductionHypothesis => simp [substAll, inductionHypothesis]

end Expr

namespace Stmt

mutual

/-- Applies a substitution to every expression of a statement. -/
def subst (change : Substitution) : Stmt → Stmt
  | declare id initial => declare id (initial.map (Expr.subst change))
  | eval value => eval (value.subst change)
  | assign target value => assign (target.subst change) (value.subst change)
  | ifThen condition yes => ifThen (condition.subst change) (substAll change yes)
  | ifElse condition yes no =>
      ifElse (condition.subst change) (substAll change yes) (substAll change no)
  | loop condition body => loop (condition.subst change) (substAll change body)
  | block body => block (substAll change body)
  | ret value => ret (value.map (Expr.subst change))
  | brk => brk
  | cont => cont
  | discard => discard
termination_by structural stmt => stmt

/-- Applies a substitution to every expression of a block. -/
def substAll (change : Substitution) : List Stmt → List Stmt
  | [] => []
  | stmt :: stmts => stmt.subst change :: substAll change stmts
termination_by structural stmts => stmts

end

/-- The statements of a block are substituted one by one. -/
theorem substAll_eq_map (change : Substitution) (stmts : List Stmt) :
    substAll change stmts = stmts.map (subst change) := by
  induction stmts with
  | nil => rfl
  | cons stmt stmts inductionHypothesis => simp [substAll, inductionHypothesis]

end Stmt

/-- Applies a substitution to every expression of a block. -/
def Block.subst (block : Block) (change : Substitution) : Block := Stmt.substAll change block

end ShaderPipeline
