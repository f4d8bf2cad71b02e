import ShaderPipeline.Tree.Replace
import ShaderPipeline.Tree.Walk

/-!
# Pruning

Pruning removes declarations of variables that nothing refers to and statements
that do nothing, and flags every unreferenced variable as eliminated. Interface
variables and parameters of declared functions count as referenced; so does a
local variable whose initial value has an effect, because its declaration has to
stay.
-/

namespace ShaderPipeline

namespace Prune

/-- The variables that a global declaration keeps alive by itself. -/
def anchored (tables : Tables) : Global → Result (List VariableId)
  | .struct _ => .ok []
  | .var id => do return if (← tables.variableAt id).isInterface then [id] else []
  | .prototype function => do return (← tables.functionAt function).params.map Param.variableId
  | .definition function _ => do return (← tables.functionAt function).params.map Param.variableId

/-- The variable that a statement declares. -/
def declared? : Stmt → Option VariableId
  | .declare id _ => some id
  | _ => none

/-- The variables that the bodies of a program mention. -/
def mentioned (program : Program) : List VariableId :=
  program.definitions.flatMap fun entry => Block.symbols entry.2

/-- The local variables that the bodies of a program declare. -/
def declaredLocals (program : Program) : List VariableId :=
  program.definitions.flatMap fun entry => (Block.stmts entry.2).filterMap declared?

/-- The variables that a program refers to before anything is removed. All variables that occur
have to be known. -/
def referenced (program : Program) : Result (List VariableId) := do
  let anchors ← program.globals.mapM (anchored program.tables)
  let marks := anchors.flatten ++ mentioned program
  if (marks ++ declaredLocals program).all (·.index < program.tables.vars.size) then
    return marks
  else
    fault .outOfRange

/-- Removes a statement that does nothing. A declaration that stays marks its variable. -/
def pruneStmt : Stmt → StateM (List VariableId) (List Stmt)
  | .declare id initial => do
    if (← get).contains id || initial.any Expr.hasEffect then
      modify (·.insert id)
      return [.declare id initial]
    else
      return []
  | .eval value => return if value.hasEffect then [.eval value] else []
  | stmt => return [stmt]

/-- Whether a global declaration stays, given the referenced variables. -/
def keeps (marks : List VariableId) : Global → Bool
  | .var id => marks.contains id
  | _ => true

/-- Flags every variable that is not referenced. -/
def flag (marks : List VariableId) (tables : Tables) : Tables :=
  { tables with
    vars := tables.vars.mapIdx fun index entry =>
      if marks.contains ⟨index⟩ then entry else { entry with eliminated := true } }

end Prune

/-- Removes what a program does not use. -/
def Program.prune (program : Program) : Result Program := do
  let marks ← Prune.referenced program
  let pruneBody (_ : FunctionId) (body : Block) : StateM (List VariableId) Block :=
    body.replaceM Prune.pruneStmt
  let (globals, marks) := (Global.mapBodiesM pruneBody program.globals).run marks
  return ⟨Prune.flag marks program.tables, globals.filter (Prune.keeps marks)⟩

end ShaderPipeline
