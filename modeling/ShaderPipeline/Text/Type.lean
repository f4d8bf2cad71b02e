import ShaderPipeline.Tables
import ShaderPipeline.Decimal.Single

/-!
# Types and declarations as text

The spelling of types, qualifiers and constants. A type is spelled by following
its identities, which may turn out to be missing or to lead nowhere.
-/

namespace ShaderPipeline

def Precision.text : Precision → String
  | .notApplicable => ""
  | .low => "lowp"
  | .medium => "mediump"
  | .high => "highp"

def Decoration.text : Decoration → String
  | .precise => "precise"
  | .smooth => "smooth"
  | .flat => "flat"
  | .noPerspective => "noperspective"
  | .centroid => "centroid"
  | .sample => "sample"
  | .uniform => "uniform"
  | .input => "in"
  | .output => "out"
  | .location slot => "layout(location = " ++ toString slot ++ ")"
  | .binding slot => "layout(binding = " ++ toString slot ++ ")"

def BuiltIn.text : BuiltIn → String
  | .vertexId => "gl_VertexID"
  | .instanceId => "gl_InstanceID"
  | .position => "gl_Position"
  | .pointSize => "gl_PointSize"
  | .clipDistance => "gl_ClipDistance"
  | .fragCoord => "gl_FragCoord"
  | .frontFacing => "gl_FrontFacing"
  | .pointCoord => "gl_PointCoord"
  | .sampleId => "gl_SampleID"
  | .samplePosition => "gl_SamplePosition"
  | .sampleMaskIn => "gl_SampleMaskIn"
  | .fragColor => "gl_FragColor"
  | .fragData => "gl_FragData"
  | .fragDepth => "gl_FragDepth"
  | .sampleMask => "gl_SampleMask"

def AddressSpace.text : AddressSpace → String
  | .thread => "thread"
  | .device => "device"
  | .constant => "constant"

/-- What stands in front of the declaration of a parameter. -/
def Direction.text : Direction → String
  | .input => ""
  | .output => "out "
  | .inputOutput => "inout "

def Stage.text : Stage → String
  | .vertex => "Vertex Shader"
  | .fragment => "Fragment Shader"
  | .compute => "Compute Shader"

def Scalar.text : Scalar → String
  | .void => "void"
  | .float => "float"
  | .int => "int"
  | .uint => "uint"
  | .bool => "bool"

/-- What the name of a vector starts with. -/
def Scalar.vectorText : Scalar → Result String
  | .float => .ok "vec"
  | .int => .ok "ivec"
  | .uint => .ok "uvec"
  | .bool => .ok "bvec"
  | .void => defect .vectorOfVoid

namespace ImageKind

/-- The arrangement part of an image's name. -/
def arrangementText (kind : ImageKind) : String :=
  (match kind.dimension with
    | .planar => "2D"
    | .volume => "3D"
    | .cube => "Cube") ++
  (if kind.multisampled then "MS" else "") ++
  (if kind.arrayed then "Array" else "") ++
  (if kind.shadow then "Shadow" else "")

/-- The name of an image type. -/
def imageText (kind : ImageKind) : String :=
  (match kind.texel with
    | .float => ""
    | .int => "i"
    | .uint => "u") ++
  (if kind.sampled then "sampler" else "image") ++ kind.arrangementText

/-- The name of a texture type, whose arrangement is in small letters. -/
def textureText (kind : ImageKind) : String :=
  "texture" ++ kind.arrangementText.toLower ++
  (match kind.texel with
    | .float => "<float>"
    | .int => "<int>"
    | .uint => "<uint>")

end ImageKind

def Constant.text : Constant → String
  | .float bits => Decimal.singleText bits
  | .int value => toString value.toInt
  | .uint value => toString value.toNat ++ "u"
  | .bool value => if value then "true" else "false"

namespace Tables

/-- Spells a type that is at most `depth` arrays and pointers deep. -/
def typeTextWithin (tables : Tables) : (depth : Nat) → TypeId → Result String
  | 0, _ => fault .endlessType
  | depth + 1, id => do
    match ← tables.typeAt id with
    | .scalar kind => return kind.text
    | .vector component size =>
      match ← tables.typeAt component with
      | .scalar kind => return (← kind.vectorText) ++ toString size
      | _ => defect .vectorOfNonScalar
    | .matrix _ size => return "mat" ++ toString size
    | .image kind => return kind.imageText
    | .texture kind => return kind.textureText
    | .sampler => return "sampler"
    | .struct name _ => return name.spell id.index
    | .array element size =>
      return (← tables.typeTextWithin depth element) ++ "[" ++ toString size ++ "]"
    | .pointer pointee => return (← tables.typeTextWithin depth pointee) ++ "*"
    | .eliminated => return "<eliminated>"

/-- The spelling of a type. No type that ends is deeper than there are types. -/
def typeText (tables : Tables) (id : TypeId) : Result String :=
  tables.typeTextWithin (tables.types.size + 1) id

/-- Qualifiers, type and name, separated by blanks, with a remark if a built-in is meant. -/
def declarationText (tables : Tables) (spelling : String) (type : TypeId) (precision : Precision)
    (decorations : List Decoration) (builtIn : Option BuiltIn) : Result String := do
  let typeSpelling ← tables.typeText type
  return " ".intercalate <|
    decorations.map Decoration.text ++
    (if precision = .notApplicable then [] else [precision.text]) ++
    [typeSpelling, spelling] ++
    (builtIn.map fun builtIn => "/* " ++ builtIn.text ++ " */").toList

/-- The name of a variable. -/
def variableText (tables : Tables) (id : VariableId) : Result String := do
  return (← tables.variableAt id).name.spell id.index

/-- The name of a function. -/
def functionText (tables : Tables) (id : FunctionId) : Result String := do
  return (← tables.functionAt id).name.spell id.index

/-- The declaration of a variable. A reference shows its address space in place of qualifiers. -/
def variableDeclarationText (tables : Tables) (id : VariableId) : Result String := do
  let entry ← tables.variableAt id
  let spelling := entry.name.spell id.index
  let plain ← tables.declarationText spelling entry.type entry.precision entry.decorations
    entry.builtIn
  let typeSpelling ← tables.typeText entry.type
  let declaration := match entry.reference with
    | some space => space.text ++ " " ++ typeSpelling ++ "& " ++ spelling
    | none => if entry.isConst then "const " ++ plain else plain
  return match entry.initializer with
    | some value => declaration ++ " = " ++ value.text
    | none => declaration

/-- The declaration of a field, which is identified by its position. -/
def fieldText (tables : Tables) (field : Field) (position : Nat) : Result String :=
  tables.declarationText (field.name.spell position) field.type field.precision field.decorations
    field.builtIn

/-- The signature of a function. -/
def signatureText (tables : Tables) (id : FunctionId) : Result String := do
  let function ← tables.functionAt id
  let returned ← tables.typeText function.returnType
  let params ← function.params.mapM fun param => do
    return param.direction.text ++ (← tables.variableDeclarationText param.variableId)
  return (if function.returnPrecision = .notApplicable then ""
      else function.returnPrecision.text ++ " ") ++
    returned ++ " " ++ function.name.spell id.index ++ "(" ++ ", ".intercalate params ++ ")"

end Tables

end ShaderPipeline
