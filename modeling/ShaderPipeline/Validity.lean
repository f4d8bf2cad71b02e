import ShaderPipeline.Program
import ShaderPipeline.Typing

/-!
# Validity

The rules that a whole program keeps:

- there is exactly one definition of the entry point;
- a declared variable is known, in use, declared where its scope says, and a
  reference only if it is a parameter;
- a mentioned variable is global, a parameter, or declared earlier in the same
  block or in one around it, and in use;
- a called function is declared and given as many arguments as it has
  parameters;
- fields are selected from structs that have them, and only types with elements
  are indexed;
- a function returns a value just in case its return type is not void.

The check goes through the program in order and stops at the first violation.
-/

namespace ShaderPipeline

namespace Validity

/-- Stops because a rule is broken. -/
def violated {α : Type} (violation : Violation) : Result α := defect (.invalid violation)

/-- Goes on only if a rule is kept. -/
def obey (kept : Bool) (violation : Violation) : Result Unit :=
  if kept then .ok () else violated violation

/-- What is known while the body of a function is checked. -/
structure Context where
  tables : Tables
  globals : List VariableId
  functions : List FunctionId
  owner : FunctionId

/-- Checks a variable where it is declared. -/
def checkVariable (tables : Tables) (expected : Scope) (id : VariableId) : Result Unit :=
  match tables.vars[id.index]? with
  | none => violated (.unknownVariable id)
  | some entry => do
    obey (!entry.eliminated) (.declaredEliminated id)
    obey (entry.scope = expected) (.wrongScope id)
    obey (entry.reference.isNone || expected = .parameter) (.strayReference id)

mutual

/-- Checks an expression, given the variables that are visible besides the global ones. -/
def checkExpr (context : Context) (visible : List VariableId) : Expr → Result Unit
  | .const _ => .ok ()
  | .var id => do
    obey (context.globals.contains id || visible.contains id) (.notInScope id)
    obey (!(← context.tables.variableAt id).eliminated) (.referencedEliminated id)
  | .field base position => do
    checkExpr context visible base
    match (← context.tables.typeAt (← context.tables.typeOf base)).fields? with
    | none => violated (.fieldOfNonStruct position)
    | some fields => obey (position < fields.length) (.fieldOutOfRange position)
  | .index base position => do
    checkExpr context visible base
    checkExpr context visible position
    obey (← context.tables.typeAt (← context.tables.typeOf base)).element?.isSome .notIndexable
  | .unary _ operand => checkExpr context visible operand
  | .binary _ left right => do
    checkExpr context visible left
    checkExpr context visible right
  | .construct _ args => checkExprs context visible args
  | .call callee args => do
    checkExprs context visible args
    obey (context.functions.contains callee) (.undeclaredCall callee)
    let expected := (← context.tables.functionAt callee).params.length
    obey (expected = args.length) (.argumentCount callee args.length expected)
  | .sample sampler coordinates => do
    checkExpr context visible sampler
    checkExpr context visible coordinates
  | .addressOf operand => checkExpr context visible operand
termination_by structural expr => expr

/-- Checks several expressions in order. -/
def checkExprs (context : Context) (visible : List VariableId) : List Expr → Result Unit
  | [] => .ok ()
  | arg :: args => do
    checkExpr context visible arg
    checkExprs context visible args
termination_by structural args => args

end

/-- Checks an expression that may be absent. -/
def checkOption (context : Context) (visible : List VariableId) : Option Expr → Result Unit
  | none => .ok ()
  | some value => checkExpr context visible value

mutual

/-- Checks a statement and gives the variables that are visible after it. A declared variable is
not visible in its own initial value. -/
def checkStmt (context : Context) : Stmt → List VariableId → Result (List VariableId)
  | .declare id initial, visible => do
    checkOption context visible initial
    checkVariable context.tables .local id
    return id :: visible
  | .eval value, visible => do
    checkExpr context visible value
    return visible
  | .assign target value, visible => do
    checkExpr context visible target
    checkExpr context visible value
    return visible
  | .ifThen condition yes, visible => do
    checkExpr context visible condition
    checkStmts context yes visible
    return visible
  | .ifElse condition yes no, visible => do
    checkExpr context visible condition
    checkStmts context yes visible
    checkStmts context no visible
    return visible
  | .loop condition body, visible => do
    checkExpr context visible condition
    checkStmts context body visible
    return visible
  | .block body, visible => do
    checkStmts context body visible
    return visible
  | .ret value, visible => do
    let owner ← context.tables.functionAt context.owner
    obey ((owner.returnType == .void) == value.isNone) (.returnMismatch context.owner)
    checkOption context visible value
    return visible
  | .brk, visible => return visible
  | .cont, visible => return visible
  | .discard, visible => return visible
termination_by structural stmt => stmt

/-- Checks the statements of a block in order. What they declare is not visible after the block. -/
def checkStmts (context : Context) : List Stmt → List VariableId → Result Unit
  | [], _ => .ok ()
  | stmt :: stmts, visible => do
    let visible ← checkStmt context stmt visible
    checkStmts context stmts visible
termination_by structural stmts => stmts

end

/-- Checks the parameters of a function and then its body. -/
def checkDefinition (program : Program) (function : FunctionId) (body : Block) : Result Unit := do
  let params := (← program.tables.functionAt function).params.map Param.variableId
  params.forM (checkVariable program.tables .parameter)
  let context : Context :=
    ⟨program.tables, program.globalVariables, program.declaredFunctions, function⟩
  checkStmts context body params

/-- Checks a global declaration. -/
def checkGlobal (program : Program) : Global → Result Unit
  | .var id => checkVariable program.tables .global id
  | .definition function body => checkDefinition program function body
  | .struct _ => .ok ()
  | .prototype _ => .ok ()

end Validity

/-- How many definitions of the entry point there are. -/
def Program.mainCount (program : Program) : Result Nat := do
  let functions ← program.definitions.mapM fun entry => program.tables.functionAt entry.1
  return functions.countP Function.isMain

/-- Checks a program against all rules, in order. -/
def Program.check (program : Program) : Result Unit := do
  let mains ← program.mainCount
  Validity.obey (mains = 1) (.mainCount mains)
  program.globals.forM (Validity.checkGlobal program)

end ShaderPipeline
