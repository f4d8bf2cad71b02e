import ShaderPipeline.Tables
import ShaderPipeline.Expr

/-!
# The type of an expression

Typing reads the tables and checks no more than it needs: the operands of a
comparison, the arguments of a call and the index of an element are not looked
at.
-/

namespace ShaderPipeline

namespace Tables

/-- The type of an expression. -/
def typeOf (tables : Tables) : Expr → Result TypeId
  | .const value => .ok value.type
  | .var id => do return (← tables.variableAt id).type
  | .field base position => do return (← tables.fieldAt (← tables.typeOf base) position).type
  | .index base _ => do
    match (← tables.typeAt (← tables.typeOf base)).element? with
    | some element => .ok element
    | none => defect .notIndexable
  | .unary _ operand => tables.typeOf operand
  | .binary op left right =>
    if op.givesBool then
      .ok .bool
    else do
      -- A scalar next to a vector or matrix takes the other operand's type.
      let leftType ← tables.typeOf left
      if (← tables.typeAt leftType).isScalar then tables.typeOf right else return leftType
  | .construct type _ => .ok type
  | .call callee _ => do return (← tables.functionAt callee).returnType
  | .sample _ _ => .ok .vec4
  | .addressOf operand => do
    let pointee ← tables.typeOf operand
    return (tables.find? (.pointer pointee)).getD pointee

/-- The field of a struct-typed expression that has the given text as its name. -/
def selectField (tables : Tables) (base : Expr) (text : String) : Result Expr := do
  return .field base (← tables.findField (← tables.typeOf base) text)

end Tables

end ShaderPipeline
