import ShaderPipeline.Threading.Texture
import ShaderPipeline.Tree.Replace

/-!
# The body of the entry point

The old body of the entry point becomes a nested block. Before it stand the
declarations of the local instances and whatever fills them; after it, and in
place of every bare return inside it, stands what hands the outputs over.
-/

namespace ShaderPipeline

namespace Plan

/-- A statement that converts one layout into the other. -/
def convert (outer : OuterLayout) (source target : VariableId) : Stmt :=
  .eval (.call outer.convert [.var source, .var target])

/-- Hands the outputs over: converts them if the layouts differ, then returns them. -/
def epilogue (gathering : Gathering) (internal external : VariableId) : Block :=
  (gathering.outer.map fun outer => convert outer internal external).toList ++
    [.ret (some (.var external))]

/-- Copies the last parameters of the entry point into the fields of an instance. -/
def copyFieldParams (gathering : Gathering) (tables : Tables) (main : FunctionId)
    (holder : VariableId) : Result Block := do
  let count := (← tables.fieldsOf gathering.internal).length
  let params := (← tables.functionAt main).params
  ensure (count ≤ params.length)
  return (params.drop (params.length - count)).mapIdx fun position param =>
    .assign (.field (.var holder) position) (.var param.variableId)

/-- Fills the local instance before the old body runs. -/
def prologue (gathering : Gathering) (tables : Tables) (main : FunctionId)
    (internal external : VariableId) : Result Block :=
  match gathering.category.entry with
  | .fieldParams => copyFieldParams gathering tables main internal
  | .textureParams => connectTextures gathering tables main internal
  | .indexParam => do
    let field ← tables.fieldAt gathering.internal 0
    return [.assign (.field (.var internal) 0) (.construct field.type [.var external])]
  | .returnsStruct =>
    return if gathering.outer.isSome then [.declare external none] else []
  | .localOnly => return []
  | .structParam => return []

/-- Replaces every bare return of a block, at any depth, by a nested block. -/
def replaceReturns (body epilogue : Block) : Block :=
  body.replace fun
    | .ret none => [.block epilogue]
    | stmt => [stmt]

/-- Sets the fields that have an initial value. -/
def startValues (plan : Plan) (holder : VariableId) : Block :=
  plan.initials.map fun (position, value) =>
    .assign (.field (.var holder) position) (.const value)

/-- The new body of an entry point that declares its instance in any case. -/
def wrapLocal (plan : Plan) (tables : Tables) (main : FunctionId) (internal external : VariableId)
    (body : Block) : Result Block := do
  let entering ← prologue plan.toGathering tables main internal external
  let leaving :=
    if plan.category.isOut then epilogue plan.toGathering internal external else []
  let inner := if plan.category.isOut then replaceReturns body leaving else body
  return .declare internal none :: entering ++ plan.startValues internal ++
    .block inner :: leaving

/-- The new body of an entry point that is handed an instance in the external layout. -/
def wrapConverted (plan : Plan) (tables : Tables) (outer : OuterLayout) (main : FunctionId)
    (internal : VariableId) (body : Block) : Result Block := do
  let function ← tables.functionAt main
  match function.params.head? with
  | some param =>
    return [.declare internal none, convert outer param.variableId internal, .block body]
  | none => report (.missingInstance function.name.text plan.category)

/-- The new body of the entry point. -/
def wrapMain (plan : Plan) (tables : Tables) (locals : Scoped VariableId) (main : FunctionId)
    (body : Block) : Result Block :=
  if plan.category.alwaysLocal then
    match locals.internal, locals.external with
    | some internal, some external => plan.wrapLocal tables main internal external body
    | _, _ => fault .assertion
  else
    match plan.outer, locals.internal with
    | none, _ => .ok body
    | some outer, some internal => plan.wrapConverted tables outer main internal body
    | some _, none => defect .missingLocal

end Plan

end ShaderPipeline
