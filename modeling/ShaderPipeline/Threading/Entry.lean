import ShaderPipeline.Threading.Texture

/-!
# The signature of the entry point

How the entry point comes by an instance decides its new signature: it returns
the external struct, takes more parameters at the end or one in front, or stays
as it is.
-/

namespace ShaderPipeline

namespace Threading

/-- Creates a parameter for every field, which from now on stands for the field's built-in. -/
def createFieldParams (tables : Tables) : List Field → Result (List Param × Tables)
  | [] => .ok ([], tables)
  | field :: fields => do
    let (id, tables) ← tables.declare
      { name := field.name, type := field.type, precision := field.precision,
        builtIn := field.builtIn, scope := .parameter }
    let (params, tables) ← createFieldParams tables fields
    return (⟨id, .input⟩ :: params, tables)

/-- Creates the parameter that holds the struct. Inputs are taken by value. -/
def createStructParam (plan : Plan) (tables : Tables) : Result (Param × Tables) := do
  let side := if plan.outer.isNone then .internal else .external
  let (param, tables) ← tables.createParam (plan.category.instanceName side) plan.external
    .notApplicable
  if plan.category.isIn then
    return (param, tables)
  else
    return (param, ← tables.markReference param.variableId plan.category.externalSpace)

/-- Creates the parameter that holds the index of the instance being drawn. -/
def createIndexParam (plan : Plan) (tables : Tables) : Result (Param × Tables) := do
  let (param, tables) ← tables.createParam (plan.category.instanceName .external) .uint .high
  return (param, ← tables.markReference param.variableId plan.category.externalSpace)

/-- The entry point with the signature that the category asks for. -/
def enterMain (plan : Plan) (state : Threading) (main : FunctionId) :
    Result (FunctionId × Threading) := do
  match plan.category.entry with
  | .returnsStruct =>
    if (← state.tables.functionAt main).returnType = .void then
      let (copy, tables) ← state.tables.cloneFunction main (·.returning plan.external)
      return (copy, { state with tables })
    else
      report (.nonVoidMain plan.category)
  | .fieldParams =>
    let fields ← state.tables.fieldsOf plan.external
    let (params, tables) ← createFieldParams state.tables fields
    let (copy, tables) ← tables.cloneFunction main (·.append params)
    return (copy, { state with tables })
  | .textureParams =>
    let fields ← state.tables.fieldsOf plan.external
    let (params, state) ← state.createSlots (TextureSlot.ofFields state.tables fields)
    let (copy, tables) ← state.tables.cloneFunction main (·.append params)
    return (copy, { state with tables })
  | .indexParam =>
    let (param, tables) ← createIndexParam plan state.tables
    let (copy, tables) ← tables.cloneFunction main (·.prepend param)
    let locals := { state.locals with external := some param.variableId }
    return (copy, { state with tables, locals })
  | .localOnly =>
    ensure state.locals.isFull
    return (main, state)
  | .structParam =>
    let (param, tables) ← createStructParam plan state.tables
    let (copy, tables) ← tables.cloneFunction main (·.prepend param)
    return (copy, { state with tables })

/-- The function that replaces a dependent one. It is made when it is first asked for. -/
def update (plan : Plan) (state : Threading) (id : FunctionId) :
    Result (FunctionId × Threading) := do
  ensure (state.concerns plan id)
  match state.updated.lookup id with
  | some known => return (known, state)
  | none =>
    let (copy, state) ←
      if (← state.tables.functionAt id).isMain then state.enterMain plan id
      else state.copyHelper plan id
    return (copy, state.remember id copy)

end Threading

end ShaderPipeline
