import ShaderPipeline.Declaration

/-!
# Expressions

Expressions are trees over constants and variables. Functions, variables, types
and fields are referred to by identity, and nothing in the tree is checked: it
is the operation that uses an identity which may find it missing.
-/

namespace ShaderPipeline

inductive UnaryOp where
  | negate
  | logicalNot
  | bitwiseNot
deriving DecidableEq

inductive BinaryOp where
  | add
  | sub
  | mul
  | div
  | remainder
  | equal
  | notEqual
  | less
  | greater
  | lessEqual
  | greaterEqual
  | logicalAnd
  | logicalOr
deriving DecidableEq

/-- Comparisons and logical connectives give a truth value whatever their operands are. -/
def BinaryOp.givesBool : BinaryOp → Bool
  | .add | .sub | .mul | .div | .remainder => false
  | _ => true

/-- An expression. -/
inductive Expr where
  | const (value : Constant)
  | var (id : VariableId)
  /-- A field of a struct, by position. -/
  | field (base : Expr) (position : Nat)
  /-- An element of an array, a vector or a matrix. -/
  | index (base position : Expr)
  | unary (op : UnaryOp) (operand : Expr)
  | binary (op : BinaryOp) (left right : Expr)
  /-- A value of the type made from its parts, or a conversion to it. -/
  | construct (type : TypeId) (args : List Expr)
  | call (callee : FunctionId) (args : List Expr)
  /-- The texel that a sampler finds at some coordinates. -/
  | sample (sampler coordinates : Expr)
  | addressOf (operand : Expr)

namespace Expr

/-- An integer literal, taken modulo the width of a word. -/
def int (value : Nat) : Expr := .const (.int (Int32.ofNat value))

mutual

/-- Whether evaluating an expression can do more than give a value: only calls can. -/
def hasEffect : Expr → Bool
  | const _ => false
  | var _ => false
  | field base _ => base.hasEffect
  | index base position => base.hasEffect || position.hasEffect
  | unary _ operand => operand.hasEffect
  | binary _ left right => left.hasEffect || right.hasEffect
  | construct _ args => hasEffects args
  | call _ _ => true
  | sample sampler coordinates => sampler.hasEffect || coordinates.hasEffect
  | addressOf operand => operand.hasEffect
termination_by structural expr => expr

/-- Whether one of several expressions has an effect. -/
def hasEffects : List Expr → Bool
  | [] => false
  | arg :: args => arg.hasEffect || hasEffects args
termination_by structural args => args

end

/-- Several expressions have an effect if one of them has. -/
theorem hasEffects_eq_any (args : List Expr) : hasEffects args = args.any hasEffect := by
  induction args with
  | nil => rfl
  | cons arg args inductionHypothesis => simp [hasEffects, inductionHypothesis]

end Expr

end ShaderPipeline
