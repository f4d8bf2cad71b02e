import ShaderPipeline.Category.Rules
import ShaderPipeline.Scoped
import ShaderPipeline.Shader

/-!
# Gathering a category

The global variables of a category leave the list of declarations and become the
fields of a struct, in the order of their declaration. The struct, and the
bridge to its external layout if it needs one, are declared right before the
entry point. A supplied instance is taken as it is: its own struct is used.
-/

namespace ShaderPipeline

/-- The external struct of a category, and the function that converts between the layouts. -/
structure OuterLayout where
  struct : TypeId
  convert : FunctionId

/-- A category whose variables were gathered. -/
structure Gathering where
  category : Category
  /-- The variable that is used as it is, in place of a new struct. -/
  supplied : Option VariableId
  /-- The variables of the category, in the order of the struct's fields. -/
  members : List VariableId
  internal : TypeId
  /-- Set if the external layout differs from the internal one. -/
  outer : Option OuterLayout

namespace Gathering

/-- The struct that crosses the boundary. -/
def external (gathering : Gathering) : TypeId :=
  match gathering.outer with
  | some outer => outer.struct
  | none => gathering.internal

/-- The internal and the external struct. -/
def structs (gathering : Gathering) : Scoped TypeId :=
  ⟨some gathering.internal, some gathering.external⟩

/-- Takes the variables that satisfy a test out of a list of declarations. None may be declared
twice. -/
def take (claims : VariableId → Result Bool) :
    List Global → (taken : List VariableId) → Result (List VariableId × List Global)
  | [], taken => .ok (taken, [])
  | .var id :: rest, taken => do
    if ← claims id then
      ensure (!taken.contains id)
      take claims rest (taken ++ [id])
    else
      let (taken, kept) ← take claims rest taken
      return (taken, .var id :: kept)
  | other :: rest, taken => do
    let (taken, kept) ← take claims rest taken
    return (taken, other :: kept)

end Gathering

namespace Tables

/-- The type that stands for a sampler or for a flat array of samplers: texture environments in
the same arrangement. -/
def samplerEnv (tables : Tables) (type : TypeId) : Result (TypeId × Tables) := do
  let shape := tables.shapeOf type
  ensure (shape.extents.length ≤ 1)
  match ← tables.baseOf shape with
  | .image kind =>
    let (env, tables) := tables.textureEnv kind
    return tables.arrayOver shape.extents env
  | _ => defect .expectedSampler

/-- The field that takes the place of a variable. -/
def fieldFor (tables : Tables) (invariance : Invariance) (category : Category)
    (id : VariableId) : Result (Field × Tables) := do
  let entry ← tables.variableAt id
  if category = .textures then
    ensure (!invariance.hasVariable id)
    let (env, tables) ← tables.samplerEnv entry.type
    return (⟨entry.name, env, .notApplicable, entry.decorations, none⟩, tables)
  else
    return (⟨entry.name, entry.type, entry.precision, entry.decorations, entry.builtIn⟩, tables)

/-- The fields that take the places of several variables. -/
def fieldsFor (tables : Tables) (invariance : Invariance) (category : Category) :
    List VariableId → Result (List Field × Tables)
  | [] => .ok ([], tables)
  | id :: ids => do
    let (field, tables) ← tables.fieldFor invariance category id
    let (fields, tables) ← tables.fieldsFor invariance category ids
    return (field :: fields, tables)

end Tables

namespace Gathering

/-- The positions of the invariant variables in a list. -/
def invariantPositions (invariance : Invariance) (members : List VariableId) : List Nat :=
  ((List.range members.length).zip members).filterMap fun (position, id) =>
    if invariance.hasVariable id then some position else none

/-- Creates the struct of a category, with a field for every variable. -/
def createInternal (tables : Tables) (invariance : Invariance) (category : Category)
    (members : List VariableId) : Result (TypeId × Tables × Invariance) := do
  let (fields, tables) ← tables.fieldsFor invariance category members
  let (struct, tables) ← tables.createStruct (category.structName .internal) fields
  return (struct, tables,
    invariance.insertFields struct (invariantPositions invariance members))

/-- The struct that a category works with, and its declaration if it is new. -/
def internalStruct (tables : Tables) (invariance : Invariance) (category : Category)
    (supplied : Option VariableId) (members : List VariableId) :
    Result (TypeId × List Global × Tables × Invariance) :=
  match supplied with
  | some id => do
    let type := (← tables.variableAt id).type
    ensure (← tables.typeAt type).isStruct
    return (type, [], tables, invariance)
  | none => do
    let (struct, tables, invariance) ← createInternal tables invariance category members
    return (struct, [.struct struct], tables, invariance)

/-- The bridge to the external layout of a category's struct, if it needs one. -/
def bridge? (tables : Tables) (invariance : Invariance) (category : Category) (struct : TypeId) :
    Result (Option Bridge × Tables × Invariance) :=
  match category.layoutRules with
  | some rules =>
    tables.createBridge invariance rules struct (category.structName .external)
  | none => .ok (none, tables, invariance)

end Gathering

/-- Gathers the variables of a category. Without any, the shader stays as it is. -/
def Shader.gather (shader : Shader) (category : Category) (supplied : Option VariableId) :
    Result (Option Gathering × Shader) := do
  let tables := shader.program.tables
  let (members, kept) ←
    Gathering.take (category.claims tables supplied) shader.program.globals []
  if members.isEmpty then
    return (none, shader)
  match ← tables.findMain kept with
  | none => report .missingMain
  | some (place, _) =>
    let (internal, declared, tables, invariance) ←
      Gathering.internalStruct tables shader.invariance category supplied members
    let (bridge, tables, invariance) ← Gathering.bridge? tables invariance category internal
    let news := declared ++ (bridge.map Bridge.globals).getD []
    let program ← Program.insertAt ⟨tables, kept⟩ place news
    let outer := bridge.map fun bridge => ⟨bridge.struct, bridge.function⟩
    return (some ⟨category, supplied, members, internal, outer⟩,
      { shader with program, invariance })

end ShaderPipeline
