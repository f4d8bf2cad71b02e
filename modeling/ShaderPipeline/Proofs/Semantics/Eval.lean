import ShaderPipeline.Program
import ShaderPipeline.Proofs.Semantics.Run

/-!
# The meaning of a program

A program is run by a big-step evaluator. Operators, constructors and sampling are
interpreted in any way, but as total functions. Every call has a frame of its own
for parameters and locals, told apart by the depth of the call: arguments are
copied in and back, except that a reference stands for the place it was given.
Calls and rounds of loops take fuel, and with enough of it a run that ends has its
outcome.
-/

namespace ShaderPipeline

/-- What the operations on values mean. -/
structure Interpretation where
  unary : UnaryOp → Value → Value
  binary : BinaryOp → Value → Value → Value
  construct : TypeId → List Value → Value
  sample : (sampler coordinates : Value) → Value
  address : Value → Value

/-- What the left operand alone decides: the logical connectives may leave out the right one. -/
def BinaryOp.decided : BinaryOp → Value → Option Value
  | .logicalAnd, .scalar (.bool false) => some (.scalar (.bool false))
  | .logicalOr, .scalar (.bool true) => some (.scalar (.bool true))
  | _, _ => none

/-- How control goes on after a statement. -/
inductive Flow where
  | next
  | brk
  | cont
  | ret (value : Value)

/-- The value that a function returns. One that returns nothing gives the default. A break or a
continue that is in no loop has no meaning, so such a call has no outcome. -/
def Flow.result : Flow → Run Value
  | ret value => pure value
  | next => pure default
  | brk | cont => Run.exhausted

/-- Repeats a body while a test holds, at most as often as there is fuel. -/
def Run.iterate (test : Run Bool) (body : Run Flow) : (fuel : Nat) → Run Flow
  | 0 => Run.exhausted
  | fuel + 1 => do
    if ← test then
      match ← body with
      | .next | .cont => iterate test body fuel
      | .brk => return .next
      | .ret value => return .ret value
    else
      return .next

/-- What the body of a function runs in. -/
structure Setting where
  interp : Interpretation
  /-- Where the variables are found. -/
  locate : VariableId → Place
  /-- What the variables hold when they are declared. -/
  initial : VariableId → Value
  invoke : FunctionId → List Passed → Run Value
  fuel : Nat

namespace Setting

mutual

/-- Evaluates an expression, from left to right. -/
def eval (setting : Setting) : Expr → Run Operand
  | .const value => return .value (.scalar value)
  | .var id => return .place (setting.locate id)
  | .field base position => do
    let base ← setting.eval base
    return base.part position
  | .index base position => do
    let base ← setting.eval base
    let position ← Run.load (← setting.eval position)
    return base.element position.position?
  | .unary op operand => do
    let operand ← Run.load (← setting.eval operand)
    return .value (setting.interp.unary op operand)
  | .binary op left right => do
    let left ← Run.load (← setting.eval left)
    match op.decided left with
    | some value => return .value value
    | none =>
      let right ← Run.load (← setting.eval right)
      return .value (setting.interp.binary op left right)
  | .construct type args => do
    let args ← setting.evalAll args
    return .value (setting.interp.construct type (args.map Passed.value))
  | .call callee args => do
    let args ← setting.evalAll args
    return .value (← setting.invoke callee args)
  | .sample sampler coordinates => do
    let sampler ← Run.load (← setting.eval sampler)
    let coordinates ← Run.load (← setting.eval coordinates)
    return .value (setting.interp.sample sampler coordinates)
  | .addressOf operand => do
    let operand ← Run.load (← setting.eval operand)
    return .value (setting.interp.address operand)
termination_by structural expr => expr

/-- Evaluates arguments in order. -/
def evalAll (setting : Setting) : List Expr → Run (List Passed)
  | [] => return []
  | arg :: args => do
    let operand ← setting.eval arg
    let value ← Run.load operand
    let rest ← setting.evalAll args
    return ⟨operand.place?, value⟩ :: rest
termination_by structural args => args

end

/-- The value of an expression. -/
def value (setting : Setting) (expr : Expr) : Run Value := do
  Run.load (← setting.eval expr)

/-- What a variable holds once it is declared. -/
def declared (setting : Setting) (id : VariableId) : Option Expr → Run Value
  | none => return setting.initial id
  | some initial => setting.value initial

mutual

/-- Executes a statement. -/
def exec (setting : Setting) : Stmt → Run Flow
  | .declare id initial => do
    let value ← setting.declared id initial
    Run.write (setting.locate id) value
    return .next
  | .eval value => do
    let _ ← setting.eval value
    return .next
  | .assign target value => do
    let target ← setting.eval target
    let value ← setting.value value
    Run.assign target value
    return .next
  | .ifThen condition yes => do
    if (← setting.value condition).truth then setting.execAll yes else return .next
  | .ifElse condition yes no => do
    if (← setting.value condition).truth then setting.execAll yes else setting.execAll no
  | .loop condition body =>
    Run.iterate (do return (← setting.value condition).truth) (setting.execAll body) setting.fuel
  | .block body => setting.execAll body
  | .ret none => return .ret default
  | .ret (some value) => do return .ret (← setting.value value)
  | .brk => return .brk
  | .cont => return .cont
  | .discard => Run.abort
termination_by structural stmt => stmt

/-- Executes the statements of a block in order, until one leaves it. -/
def execAll (setting : Setting) : List Stmt → Run Flow
  | [] => return .next
  | stmt :: stmts => do
    match ← setting.exec stmt with
    | .next => setting.execAll stmts
    | flow => return flow
termination_by structural stmts => stmts

end

end Setting

/-! ## Calls -/

namespace Tables

/-- Whether a variable is a reference. -/
def isReference (tables : Tables) (id : VariableId) : Bool :=
  tables.vars[id.index]?.any fun entry => entry.reference.isSome

/-- Whether a variable is declared globally. -/
def isGlobal (tables : Tables) (id : VariableId) : Bool :=
  tables.vars[id.index]?.any fun entry => entry.scope = .global

/-- The place that a parameter stands for, if it is a reference to one. -/
def aliased (tables : Tables) (pair : Param × Passed) : Option Place :=
  if tables.isReference pair.1.variableId then pair.2.place else none

/-- Where a variable is found in a call at some depth with the given parameters. -/
def locate (tables : Tables) (depth : Nat) (pairs : List (Param × Passed)) (id : VariableId) :
    Place :=
  match (pairs.find? fun pair => pair.1.variableId == id).bind tables.aliased with
  | some place => place
  | none => if tables.isGlobal id then ⟨.global id, []⟩ else ⟨.frame depth id, []⟩

/-- The store with a new frame at some depth. -/
def clear (tables : Tables) (depth : Nat) (store : Store) : Store
  | .global id => store (.global id)
  | .frame level id => if level = depth then tables.initial id else store (.frame level id)

/-- Copies an argument into a frame. A parameter that is only written gets none. -/
def copyIn (tables : Tables) (depth : Nat) (pair : Param × Passed) : Run Unit :=
  match tables.aliased pair, pair.1.direction with
  | none, .input | none, .inputOutput =>
    Run.write ⟨.frame depth pair.1.variableId, []⟩ pair.2.value
  | _, _ => pure ()

/-- Copies a parameter that is written back to the place of its argument. -/
def copyBack (tables : Tables) (depth : Nat) (pair : Param × Passed) : Run Unit :=
  match tables.aliased pair, pair.1.direction, pair.2.place with
  | none, .output, some place | none, .inputOutput, some place => do
    Run.write place (← Run.load (.place ⟨.frame depth pair.1.variableId, []⟩))
  | _, _, _ => pure ()

/-- Copies the arguments in, in order. -/
def enter (tables : Tables) (depth : Nat) : List (Param × Passed) → Run Unit
  | [] => return ()
  | pair :: pairs => do
    tables.copyIn depth pair
    tables.enter depth pairs

/-- Copies the parameters back, in order. -/
def leave (tables : Tables) (depth : Nat) : List (Param × Passed) → Run Unit
  | [] => return ()
  | pair :: pairs => do
    tables.copyBack depth pair
    tables.leave depth pairs

/-- What the body of a function runs in, in a call at some depth. -/
def frame (tables : Tables) (interp : Interpretation) (fuel depth : Nat)
    (pairs : List (Param × Passed)) (invoke : FunctionId → List Passed → Run Value) : Setting where
  interp := interp
  locate := tables.locate depth pairs
  initial := tables.initial
  invoke := invoke
  fuel := fuel

/-- The store before the entry point runs. Constant initializers come first, then what is given
from outside; everything else is zero. -/
def start (tables : Tables) (given : VariableId → Option Value) : Store
  | .global id =>
    match tables.vars[id.index]?.bind Variable.initializer with
    | some value => .scalar value
    | none => (given id).getD (tables.initial id)
  | .frame _ id => tables.initial id

end Tables

namespace Program

/-- Calls a function. One without a body never ends. -/
def call (interp : Interpretation) (program : Program) :
    (fuel depth : Nat) → FunctionId → List Passed → Run Value
  | 0, _, _, _ => Run.exhausted
  | fuel + 1, depth, function, args =>
    match program.tables.functions[function.index]?, program.body? function with
    | some signature, some body => do
      let pairs := signature.params.zip args
      Run.modify (program.tables.clear depth)
      program.tables.enter depth pairs
      let frame := program.tables.frame interp fuel depth pairs (program.call interp fuel (depth + 1))
      let flow ← frame.execAll body
      program.tables.leave depth pairs
      flow.result
    | _, _ => Run.exhausted

/-- Calls the entry point with the given values. -/
def enterMain (interp : Interpretation) (program : Program) (fuel : Nat) (args : List Value) :
    Run Value :=
  match program.main? with
  | .ok (some (_, main)) => program.call interp fuel 0 main (Passed.values args)
  | _ => Run.exhausted

/-- With enough fuel, the entry point ends with an outcome, which is none if it was discarded, and
the watched global variables hold the given values. -/
def Ends (interp : Interpretation) (program : Program) (given : VariableId → Option Value)
    (args : List Value) (watched : VariableId → Prop) (outcome : Option Value)
    (values : VariableId → Value) : Prop :=
  ∃ fuel final, program.enterMain interp fuel args (program.tables.start given) =
    some (outcome, final) ∧ ∀ id, watched id → final (.global id) = values id

/-- The same from any store. -/
def EndsFrom (interp : Interpretation) (program : Program) (store : Store) (args : List Value)
    (watched : VariableId → Prop) (outcome : Option Value) (values : VariableId → Value) : Prop :=
  ∃ fuel final, program.enterMain interp fuel args store = some (outcome, final) ∧
    ∀ id, watched id → final (.global id) = values id

end Program

end ShaderPipeline
