import ShaderPipeline.Threading.Basic

/-!
# Textures at the entry point

Every sampler of the textures category, also every element of an array of them,
is one slot. The entry point takes a texture and a sampling state for every slot
as its last parameters, in the order of the slots, and points the slot's texture
environment at them.
-/

namespace ShaderPipeline

/-- One sampler of the textures struct: the field that it is in, and its place there if the field
is an array. -/
structure TextureSlot where
  position : Nat
  field : Field
  element : List Nat
  /-- The texture environment that stands for the sampler. -/
  env : TypeId

namespace TextureSlot

/-- The slots of a struct's fields, in order. -/
def ofFields (tables : Tables) (fields : List Field) : List TextureSlot :=
  (fields.mapIdx fun position field =>
    let shape := tables.shapeOf field.type
    (positions shape.extents).map fun element =>
      (⟨position, field, element, shape.base⟩ : TextureSlot)).flatten

/-- The texture environment of a slot in an instance of the struct. -/
def access (slot : TextureSlot) (holder : VariableId) : Expr :=
  (Expr.field (.var holder) slot.position).atPosition slot.element

/-- The name of the parameter for one half of a slot. -/
def paramName (slot : TextureSlot) (half : Field) : Name :=
  { slot.field.name with
    text := Layout.partText (slot.field.name.text ++ "_" ++ half.name.text) slot.element }

end TextureSlot

namespace Threading

/-- Creates the parameter for one half of a slot and records the sampler that it came from. -/
def createHalf (state : Threading) (slot : TextureSlot) (half : Field) :
    Result (Param × Threading) := do
  match (← state.tables.typeAt half.type).element? with
  | none => defect .expectedPointer
  | some handle =>
    let (param, tables) ← state.tables.createParam (slot.paramName half) handle .notApplicable
    let reflection := state.reflection.record param.variableId slot.field.name.text
    return (param, { state with tables, reflection })

/-- Creates the parameters for several halves of a slot. -/
def createHalves (state : Threading) (slot : TextureSlot) :
    List Field → Result (List Param × Threading)
  | [] => .ok ([], state)
  | half :: halves => do
    let (param, state) ← state.createHalf slot half
    let (params, state) ← state.createHalves slot halves
    return (param :: params, state)

/-- Creates the parameters for several slots. -/
def createSlots (state : Threading) : List TextureSlot → Result (List Param × Threading)
  | [] => .ok ([], state)
  | slot :: slots => do
    let halves ← state.tables.fieldsOf slot.env
    ensure (halves.length = 2)
    let (first, state) ← state.createHalves slot halves
    let (rest, state) ← state.createSlots slots
    return (first ++ rest, state)

end Threading

namespace Plan

/-- Points the texture environments of a slot at a texture and a sampling state. The texture comes
first in an environment. -/
def connect (holder : VariableId) : List TextureSlot → List Param → Block
  | slot :: slots, texture :: sampler :: params =>
    .assign (.field (slot.access holder) 0) (.addressOf (.var texture.variableId)) ::
    .assign (.field (slot.access holder) 1) (.addressOf (.var sampler.variableId)) ::
    connect holder slots params
  | _, _ => []

/-- Points every texture environment at the last parameters of the entry point. -/
def connectTextures (gathering : Gathering) (tables : Tables) (main : FunctionId)
    (holder : VariableId) : Result Block := do
  let slots := TextureSlot.ofFields tables (← tables.fieldsOf gathering.internal)
  let params := (← tables.functionAt main).params
  ensure (2 * slots.length ≤ params.length)
  return connect holder slots (params.drop (params.length - 2 * slots.length))

end Plan

end ShaderPipeline
