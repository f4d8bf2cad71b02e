import ShaderPipeline.Threading.Entry
import ShaderPipeline.Threading.Main
import ShaderPipeline.Tree.Substitution
import ShaderPipeline.Tree.Walk

/-!
# Threading through a program

Threading is a substitution. In the body of a function, every call of a
dependent function becomes a call of its replacement with the function's own
instance as the first argument, and every mention of a gathered variable becomes
a field of that instance. The declarations are gone through in order, so
replacements get their identities in the order in which they are first needed.
`Shader.thread_eq_rebuilds` gives the same as two rebuilds of the tree, whose hooks
make the replacements and read the gathered variables.
-/

namespace ShaderPipeline

namespace Plan

/-- Calls of dependent functions pass an instance on. -/
def callSubstitution (plan : Plan) (state : Threading) (holder : VariableId) : Substitution where
  call callee args :=
    if plan.dependents.contains callee then
      .call (state.replacement callee) (.var holder :: args)
    else
      .call callee args

/-- What stands for a gathered variable: a field of the instance, or the whole instance if it was
supplied. -/
def access (gathering : Gathering) (holder id : VariableId) : Expr :=
  if gathering.supplied.isSome then .var holder
  else .field (.var holder) (gathering.members.idxOf id)

/-- Mentions of gathered variables read the instance. -/
def symbolSubstitution (gathering : Gathering) (holder : VariableId) : Substitution where
  symbol id := if gathering.members.contains id then access gathering holder id else .var id

end Plan

namespace Threading

/-- Makes the replacements of several functions, in order. -/
def updateAll (plan : Plan) (state : Threading) : List FunctionId → Result Threading
  | [] => .ok state
  | id :: ids => do
    let (_, state) ← state.update plan id
    state.updateAll plan ids

/-- Passes the instance on in every call of a dependent function. -/
def threadCalls (plan : Plan) (state : Threading) (owner : FunctionId) (body : Block) :
    Result (Block × Threading) :=
  match (Block.calls body).filter plan.dependents.contains with
  | [] => .ok (body, state)
  | first :: rest => do
    let (_, state) ← state.update plan first
    let (caller, state) ← state.update plan owner
    let holder ← Plan.instanceOf plan.toGathering state.tables state.locals caller
    let state ← state.updateAll plan rest
    return (Block.subst body (plan.callSubstitution state holder), state)

/-- Threads through one global declaration. -/
def threadGlobal (plan : Plan) (state : Threading) : Global → Result (Global × Threading)
  | .struct type => .ok (.struct type, state)
  | .var id => .ok (.var id, state)
  | .prototype function =>
    if state.concerns plan function then do
      let (copy, state) ← state.update plan function
      return (.prototype copy, state)
    else
      .ok (.prototype function, state)
  | .definition function body => do
    let (body, state) ← state.threadCalls plan function body
    let isMain := (← state.tables.functionAt function).isMain
    if state.concerns plan function then
      let (copy, state) ← state.update plan function
      let body ← if isMain then plan.wrapMain state.tables state.locals copy body else pure body
      return (.definition copy body, state)
    else
      return (.definition function body, state)

/-- Threads through the global declarations in order. -/
def threadGlobals (plan : Plan) (state : Threading) :
    List Global → Result (List Global × Threading)
  | [] => .ok ([], state)
  | first :: rest => do
    let (first, state) ← state.threadGlobal plan first
    let (rest, state) ← state.threadGlobals plan rest
    return (first :: rest, state)

end Threading

namespace Plan

/-- Lets a definition read the gathered variables from its instance. -/
def readInstance (gathering : Gathering) (tables : Tables) (locals : Scoped VariableId) :
    Global → Result Global
  | .definition function body =>
    if (Block.symbols body).any gathering.members.contains then do
      let holder ← instanceOf gathering tables locals function
      return .definition function (Block.subst body (symbolSubstitution gathering holder))
    else
      .ok (.definition function body)
  | other => .ok other

end Plan

/-- Threads a gathered category through a shader: locals of the entry point, signatures and calls,
then mentions of the gathered variables. -/
def Shader.thread (shader : Shader) (gathering : Gathering) (dependents : List FunctionId) :
    Result Shader := do
  let (locals, tables) ← Plan.createLocals gathering shader.program.tables
  let initials ← Plan.initialValues gathering tables
  let plan : Plan := { gathering with dependents, initials }
  let start : Threading := { tables, reflection := shader.reflection, locals, updated := [] }
  let (globals, state) ← start.threadGlobals plan shader.program.globals
  let globals ← globals.mapM (Plan.readInstance gathering state.tables state.locals)
  return { shader with program := ⟨state.tables, globals⟩, reflection := state.reflection }

end ShaderPipeline
