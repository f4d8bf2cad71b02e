import ShaderPipeline.Gathering

/-!
# Threading an instance through the functions

Every function that depends on a gathered category needs an instance of its
struct. A dependent function other than the entry point is replaced by a copy
with one more parameter in front, a reference to the instance; what the entry
point does instead is in the modules on entry. Copies are made when they are
first needed and remembered.
-/

namespace ShaderPipeline

/-- What is to be threaded: a gathered category and the functions that depend on it. -/
structure Plan extends Gathering where
  dependents : List FunctionId
  /-- The initial values that move into the entry point, by position of the field. -/
  initials : List (Nat × Constant)

/-- How far threading has come. -/
structure Threading where
  tables : Tables
  reflection : Reflection
  /-- The variables of the entry point that hold the instances. -/
  locals : Scoped VariableId
  /-- The functions that were replaced, with their replacements, and the replacements with
  themselves. -/
  updated : List (FunctionId × FunctionId)

namespace Plan

/-- The initial values of gathered variables. Only globals of the shader itself have any that
still count. -/
def initialValues (gathering : Gathering) (tables : Tables) : Result (List (Nat × Constant)) :=
  if gathering.category = .mutableGlobals then do
    let entries ← gathering.members.mapM tables.variableAt
    return ((List.range entries.length).zip entries).filterMap fun (position, entry) =>
      entry.initializer.map (position, ·)
  else
    return []

/-- Declares the local variables of the entry point that hold instances of the structs. -/
def createLocals (gathering : Gathering) (tables : Tables) :
    Result (Scoped VariableId × Tables) := do
  let category := gathering.category
  let createInternal (tables : Tables) :=
    tables.createInstance gathering.internal (category.instanceName .internal) .local
  match category.entry, gathering.outer with
  | .indexParam, _ =>
    -- The external counterpart is a parameter, which the entry point gets later.
    let (internal, tables) ← createInternal tables
    return (⟨some internal, none⟩, tables)
  | .structParam, none => return ({}, tables)
  | .structParam, some _ =>
    let (internal, tables) ← createInternal tables
    return (⟨some internal, none⟩, tables)
  | _, none =>
    let (both, tables) ← createInternal tables
    return (.uniform both, tables)
  | _, some outer =>
    let (external, tables) ←
      tables.createInstance outer.struct (category.instanceName .external) .local
    let (internal, tables) ← createInternal tables
    return (⟨some internal, some external⟩, tables)

/-- The instance of the internal struct that a function works with: a local variable of the entry
point, or else the first parameter. -/
def instanceOf (gathering : Gathering) (tables : Tables) (locals : Scoped VariableId)
    (id : FunctionId) : Result VariableId := do
  let function ← tables.functionAt id
  if function.isMain && (gathering.category.alwaysLocal || gathering.outer.isSome) then
    match locals.internal with
    | some internal => return internal
    | none => defect .missingLocal
  else
    let missing := Error.missingInstance function.name.text gathering.category
    match function.params.head? with
    | some param =>
      if (← tables.variableAt param.variableId).type = gathering.internal then
        return param.variableId
      else
        report missing
    | none => report missing

end Plan

namespace Threading

/-- The function that stands for a function from now on. -/
def replacement (state : Threading) (id : FunctionId) : FunctionId :=
  (state.updated.lookup id).getD id

/-- Whether a function is itself a replacement. -/
def isReplacement (state : Threading) (id : FunctionId) : Bool :=
  state.updated.lookup id = some id

/-- Whether threading has to do with a function. -/
def concerns (plan : Plan) (state : Threading) (id : FunctionId) : Bool :=
  plan.dependents.contains id || state.isReplacement id

/-- Remembers a replacement. -/
def remember (state : Threading) (id replacement : FunctionId) : Threading :=
  { state with updated := (replacement, replacement) :: (id, replacement) :: state.updated }

/-- The copy of a function that takes a reference to an instance as its first parameter. The
instance is where the entry point was given it, unless it was converted. -/
def copyHelper (plan : Plan) (state : Threading) (id : FunctionId) :
    Result (FunctionId × Threading) := do
  let (param, tables) ← state.tables.createParam (plan.category.instanceName .internal)
    plan.internal .notApplicable
  let space := if plan.outer.isNone then plan.category.externalSpace else .thread
  let tables ← tables.markReference param.variableId space
  let (copy, tables) ← tables.cloneFunction id (·.prepend param)
  return (copy, { state with tables })

end Threading

end ShaderPipeline
