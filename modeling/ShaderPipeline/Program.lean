import ShaderPipeline.Tables
import ShaderPipeline.Stmt

/-!
# Programs

A program is its tables and the ordered list of its global declarations.
-/

namespace ShaderPipeline

/-- The tables of a shader and its global declarations, in the order of declaration. -/
structure Program where
  tables : Tables
  globals : List Global

/-- The first definition of the entry point: its place among the declarations and its function.
Every function defined before it is looked up. -/
def Tables.findMain (tables : Tables) : List Global → Result (Option (Nat × FunctionId))
  | [] => .ok none
  | .definition function _ :: rest => do
    if (← tables.functionAt function).isMain then
      return some (0, function)
    else
      return (← tables.findMain rest).map fun (place, main) => (place + 1, main)
  | _ :: rest => do
    return (← tables.findMain rest).map fun (place, main) => (place + 1, main)

namespace Program

/-- An empty program. -/
def empty (stage : Stage) : Program := ⟨{ stage }, []⟩

/-- The first definition of the entry point. -/
def main? (program : Program) : Result (Option (Nat × FunctionId)) :=
  program.tables.findMain program.globals

/-- The functions that the program defines, with their bodies. -/
def definitions (program : Program) : List (FunctionId × Block) :=
  program.globals.filterMap Global.definition?

/-- The variables that the program declares globally. -/
def globalVariables (program : Program) : List VariableId :=
  program.globals.filterMap Global.declared?

/-- The functions that the program declares, with or without a body. -/
def declaredFunctions (program : Program) : List FunctionId :=
  program.globals.filterMap Global.function?

/-- The body of the first definition of a function. -/
def body? (program : Program) (function : FunctionId) : Option Block :=
  (program.definitions.find? fun entry => entry.1 == function).map (·.2)

/-- Puts declarations in front of the one at the given place. -/
def insertAt (program : Program) (place : Nat) (news : List Global) : Result Program :=
  if place ≤ program.globals.length then
    .ok { program with
      globals := program.globals.take place ++ news ++ program.globals.drop place }
  else
    fault .outOfRange

end Program

end ShaderPipeline
