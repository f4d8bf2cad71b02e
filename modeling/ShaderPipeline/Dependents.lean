import ShaderPipeline.Tree.Walk

/-!
# Dependent functions

A function depends on a set of variables if its body mentions one of them or
calls a function that depends on them. If a function is defined more than once,
its last definition counts.
-/

namespace ShaderPipeline

/-- What the body of a function does with a set of variables. -/
structure Usage where
  function : FunctionId
  /-- Whether the body mentions one of the variables. -/
  direct : Bool
  calls : List FunctionId

namespace Usage

/-- Whether the function calls one of several functions. -/
def callsAny (usage : Usage) (functions : List FunctionId) : Bool :=
  usage.calls.any functions.contains

end Usage

namespace Dependents

/-- Drops every definition of a function that is followed by another one of it. -/
def lastDefinitions : List (FunctionId × Block) → List (FunctionId × Block)
  | [] => []
  | (function, body) :: rest =>
    let later := lastDefinitions rest
    if later.any (·.1 == function) then later else (function, body) :: later

/-- What every defined function does with the wanted variables. -/
def usages (program : Program) (wanted : VariableId → Bool) : List Usage :=
  (lastDefinitions program.definitions).map fun (function, body) =>
    ⟨function, (Block.symbols body).any wanted, Block.calls body⟩

/-- Adds the functions that call one already found. -/
def grow (usages : List Usage) (found : List FunctionId) : List FunctionId :=
  found ++ ((usages.filter fun usage =>
    !found.contains usage.function && usage.callsAny found).map Usage.function)

/-- Adds callers a number of times. -/
def growTimes (usages : List Usage) : Nat → List FunctionId → List FunctionId
  | 0, found => found
  | times + 1, found => growTimes usages times (grow usages found)

end Dependents

/-- The functions that depend on the wanted variables. Every round but the last adds a function,
so there are no more rounds than functions. -/
def Program.dependents (program : Program) (wanted : VariableId → Bool) : List FunctionId :=
  let usages := Dependents.usages program wanted
  Dependents.growTimes usages usages.length ((usages.filter Usage.direct).map Usage.function)

end ShaderPipeline
