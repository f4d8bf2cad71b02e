import ShaderPipeline.Invariance
import ShaderPipeline.Program
import ShaderPipeline.Shape

/-!
# Layouts and the bridge between them

The other side of a shader's interface may want a struct laid out differently:
arrays as one field per element, truth values as unsigned numbers, built-ins
ahead of the rest. A bridge is the struct with that external layout together
with a function that converts between it and the internal one.
-/

namespace ShaderPipeline

/-- Which way the conversion function of a bridge goes. -/
inductive Conversion where
  | toExternal
  | toInternal
deriving DecidableEq

/-- How the external layout of a struct differs from the internal one. -/
structure LayoutRules where
  conversion : Conversion
  inlineArrays : Bool
  widenBools : Bool
  builtInsFirst : Bool
deriving DecidableEq

/-- A field of the external struct and the part of the internal struct that it holds: an element
(or the whole, if the position is empty) of the field at `source`. -/
structure Placement where
  field : Field
  source : Nat
  position : List Nat
  /-- The type that the part has in the internal struct. -/
  type : TypeId
deriving DecidableEq

/-- An external struct, and the function that converts between the layouts. -/
structure Bridge where
  struct : TypeId
  function : FunctionId
  body : Block

/-- The declarations of a bridge, in order. -/
def Bridge.globals (bridge : Bridge) : List Global :=
  [.struct bridge.struct, .definition bridge.function bridge.body]

namespace Tables

/-- The type that holds truth values as unsigned numbers, also inside arrays. Any other type stays
as it is. -/
def widenBools (tables : Tables) (type : TypeId) : Result (TypeId × Tables) := do
  let shape := tables.shapeOf type
  match ← tables.baseOf shape with
  | .scalar .bool => return tables.arrayOver shape.extents .uint
  | .vector component size =>
    if component = .bool then
      return tables.arrayOver shape.extents (← vectorType .uint size)
    else
      return (type, tables)
  | _ => return (type, tables)

end Tables

namespace Layout

/-- The text with every element of a position appended to it. -/
def partText (text : String) (position : List Nat) : String :=
  position.foldl (fun text element => text ++ "_" ++ toString element) text

/-- The name of the part of a field at a position. -/
def partName (name : Name) (position : List Nat) : Name :=
  { name with text := partText name.text position }

/-- The array structure that the rules take apart in a field. -/
def splitShape (tables : Tables) (rules : LayoutRules) (type : TypeId) : Result Shape :=
  if rules.inlineArrays then do
    let shape := tables.shapeOf type
    -- An array without elements has no parts whose type matters.
    if !shape.extents.contains 0 then
      let _ ← tables.baseOf shape
    return shape
  else
    return ⟨[], type⟩

/-- The type of a part in the external struct. -/
def partType (tables : Tables) (rules : LayoutRules) (type : TypeId) :
    Result (TypeId × Tables) :=
  if rules.widenBools then tables.widenBools type else .ok (type, tables)

/-- The external fields for one internal field. -/
def placeField (tables : Tables) (rules : LayoutRules) (source : Nat) (field : Field) :
    Result (List Placement × Tables) := do
  let shape ← splitShape tables rules field.type
  if shape.extents.contains 0 then
    return ([], tables)
  let (external, tables) ← partType tables rules shape.base
  let place (position : List Nat) : Placement :=
    { field := { field with name := partName field.name position, type := external }
      source, position, type := shape.base }
  return ((positions shape.extents).map place, tables)

/-- The external fields for the internal fields from the one at `source` on. -/
def placeFields (tables : Tables) (rules : LayoutRules) :
    List Field → (source : Nat) → Result (List Placement × Tables)
  | [], _ => .ok ([], tables)
  | field :: fields, source => do
    let (first, tables) ← placeField tables rules source field
    let (rest, tables) ← placeFields tables rules fields (source + 1)
    return (first ++ rest, tables)

/-- Moves the fields that stand for built-ins ahead; both groups keep their order. -/
def order (rules : LayoutRules) (placements : List Placement) : List Placement :=
  if rules.builtInsFirst then
    let (builtIns, others) := placements.partition (·.field.builtIn.isSome)
    builtIns ++ others
  else
    placements

/-- Whether a field is an array that the rules take apart. -/
def splits (tables : Tables) (rules : LayoutRules) (field : Field) : Bool :=
  rules.inlineArrays && !(tables.shapeOf field.type).extents.isEmpty

/-- Whether a part has another type in the external struct. -/
def retyped (placement : Placement) : Bool :=
  placement.field.type != placement.type

/-- Copies a part of one struct into the other. Where the types differ, every element is converted
on its own. Positions are signed words: an extent that is none of them counts as zero. -/
def copy (tables : Tables) (target : Expr) (targetType : TypeId) (value : Expr)
    (valueType : TypeId) : Block :=
  if targetType = valueType then
    [.assign target value]
  else
    let shape := tables.shapeOf targetType
    let counted := shape.extents.map fun extent => (Int32.ofNat extent).toInt.toNat
    (positions counted).map fun position =>
      .assign (target.atPosition position) (.construct shape.base [value.atPosition position])

/-- The conversion of one external field, the one at `place`. -/
def convertField (tables : Tables) (conversion : Conversion) (internal external : VariableId)
    (place : Nat) (placement : Placement) : Block :=
  let outer := Expr.field (.var external) place
  let inner := (Expr.field (.var internal) placement.source).atPosition placement.position
  match conversion with
  | .toExternal => copy tables outer placement.field.type inner placement.type
  | .toInternal => copy tables inner placement.type outer placement.field.type

/-- The body of the conversion function, field by field. -/
def convertBody (tables : Tables) (conversion : Conversion) (internal external : VariableId)
    (placements : List Placement) : Block :=
  (placements.mapIdx (convertField tables conversion internal external)).flatten

/-- The name of the conversion function for an external struct. -/
def convertName (conversion : Conversion) (struct : Name) : Name :=
  match conversion with
  | .toExternal => .exact (struct.text ++ "_fromOriginal")
  | .toInternal => .exact (struct.text ++ "_toOriginal")

/-- The parameters of the conversion function: what is read, then what is written. -/
def convertParams (conversion : Conversion) (internal external : VariableId) : List Param :=
  match conversion with
  | .toExternal => [⟨internal, .input⟩, ⟨external, .output⟩]
  | .toInternal => [⟨external, .input⟩, ⟨internal, .output⟩]

/-- Creates the conversion function between two layouts. -/
def createConversion (tables : Tables) (conversion : Conversion) (internalType externalType : TypeId)
    (name : Name) (placements : List Placement) : Result ((FunctionId × Block) × Tables) := do
  let (internal, tables) ←
    tables.declare { name := .temporary "original", type := internalType, scope := .parameter }
  let (external, tables) ←
    tables.declare { name := .temporary "modified", type := externalType, scope := .parameter }
  let (function, grown) := tables.addFunction
    ⟨convertName conversion name, convertParams conversion internal external, .void, .notApplicable⟩
  return ((function, convertBody tables conversion internal external placements), grown)

/-- The positions of the external fields whose internal field is invariant. -/
def invariantPlaces (invariance : Invariance) (struct : TypeId) (placements : List Placement) :
    List Nat :=
  ((List.range placements.length).zip placements).filterMap fun (place, placement) =>
    if invariance.hasField struct placement.source then some place else none

end Layout

/-- Creates the bridge to the external layout of a struct. If the rules ask for no change, there
is no bridge and nothing is created. -/
def Tables.createBridge (tables : Tables) (invariance : Invariance) (rules : LayoutRules)
    (struct : TypeId) (name : Name) : Result (Option Bridge × Tables × Invariance) := do
  let fields ← tables.fieldsOf struct
  let (placements, grown) ← Layout.placeFields tables rules fields 0
  let ordered := Layout.order rules placements
  let moved := ordered.map Placement.source != placements.map Placement.source
  if !(fields.any (Layout.splits tables rules) || placements.any Layout.retyped || moved) then
    return (none, tables, invariance)
  let (external, grown) ← grown.createStruct name (ordered.map Placement.field)
  let carried :=
    invariance.insertFields external (Layout.invariantPlaces invariance struct ordered)
  let ((function, body), grown) ←
    Layout.createConversion grown rules.conversion struct external name ordered
  return (some ⟨external, function, body⟩, grown, carried)

end ShaderPipeline
