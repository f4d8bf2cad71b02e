import ShaderPipeline.Failure
import ShaderPipeline.Tree.Rebuild
import ShaderPipeline.Tree.Replace
import ShaderPipeline.Tree.Walk

/-!
# Scripted changes of the tree

A script lists replacements for the hooks of a rebuild and keeps a record of
every hook that was asked, in order. It may also name one hook to fail at, which
shows what a rebuild does when it is cut short: the record stays, the tree does
not.
-/

namespace ShaderPipeline

/-- One question that a rebuild asked, with what identifies it. -/
inductive Asked where
  | global (id : VariableId)
  | prototype (function : FunctionId)
  | enter (function : FunctionId)
  | leave (function : FunctionId) (stmtCount : Nat)
  | call (callee owner : FunctionId) (argCount : Nat)
  | symbol (id : VariableId) (owner : FunctionId)

/-- The hook that a question is put to. -/
inductive Hook where
  | global
  | prototype
  | enter
  | leave
  | call
  | symbol
deriving DecidableEq

/-- The hook of a question and the identity that the question is about. -/
def Asked.subject : Asked → Hook × Nat
  | global id => (.global, id.index)
  | prototype function => (.prototype, function.index)
  | enter function => (.enter, function.index)
  | leave function _ => (.leave, function.index)
  | call callee _ _ => (.call, callee.index)
  | symbol id _ => (.symbol, id.index)

/-- Replacements for the hooks of a rebuild; the first match of a list counts. -/
structure Script where
  remove : List VariableId
  skip : List FunctionId
  prototypes : List (FunctionId × FunctionId)
  definitions : List (FunctionId × FunctionId)
  calls : List (FunctionId × FunctionId)
  symbols : List (VariableId × Expr)
  failAt : Option (Hook × Nat)

namespace Script

/-- A rebuild that keeps a record, also when it fails. -/
abbrev Recorded := ExceptT Error (StateM (List Asked))

/-- Records a question and fails if the script says so. -/
def ask (script : Script) (question : Asked) : Recorded Unit := do
  modify (· ++ [question])
  if script.failAt = some question.subject then
    throw .missingMain

/-- The hooks of a script. -/
def hooks (script : Script) : Rebuilder Recorded where
  keeps id := do
    script.ask (.global id)
    return !script.remove.contains id
  prototype function := do
    script.ask (.prototype function)
    return (script.prototypes.lookup function).getD function
  enters function := do
    script.ask (.enter function)
    return !script.skip.contains function
  definition function body := do
    script.ask (.leave function body.length)
    return ((script.definitions.lookup function).getD function, body)
  call owner callee args := do
    script.ask (.call callee owner args.length)
    return .call ((script.calls.lookup callee).getD callee) args
  symbol owner id := do
    script.ask (.symbol id owner)
    return (script.symbols.lookup id).getD (.var id)

/-- Runs a script: what was asked, and the new declarations or the failure. -/
def run (script : Script) (globals : List Global) : List Asked × Except Error (List Global) :=
  let (outcome, asked) := (Global.rebuildAll script.hooks globals).run.run []
  (asked, outcome)

end Script

/-! ## Dropping and duplicating statements by kind -/

/-- One step of a statement change: a definition is entered or a statement is seen. -/
inductive StmtSeen where
  | enter (function : FunctionId)
  | stmt (kind : StmtKind)

/-- Drops statements of some kinds and duplicates those of others, recording what is seen. -/
def Program.mapStatements (program : Program) (drop duplicate : List StmtKind) :
    List StmtSeen × Program :=
  let change (stmt : Stmt) : StateM (List StmtSeen) (List Stmt) := do
    modify (· ++ [.stmt stmt.kind])
    if drop.contains stmt.kind then return []
    else if duplicate.contains stmt.kind then return [stmt, stmt]
    else return [stmt]
  let changeBody (function : FunctionId) (body : Block) : StateM (List StmtSeen) Block := do
    modify (· ++ [.enter function])
    body.replaceM change
  let (globals, seen) := (Global.mapBodiesM changeBody program.globals).run []
  (seen, { program with globals })

end ShaderPipeline
