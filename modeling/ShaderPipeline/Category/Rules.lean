import ShaderPipeline.Category.Basic
import ShaderPipeline.Layout

/-!
# The rules of each category

Which variables belong to a category, how its structs and their instances are
named and laid out, and how the entry point comes by an instance.
-/

namespace ShaderPipeline

/-- The two sides of a category's struct: as the shader sees it, and as it crosses the boundary. -/
inductive Side where
  | internal
  | external
deriving DecidableEq

/-- How the entry point comes by an instance of a category's struct. -/
inductive EntryShape where
  /-- It fills a local instance and returns it. -/
  | returnsStruct
  /-- It takes every field as a parameter of its own. -/
  | fieldParams
  /-- It takes a texture and a sampling state for every sampler. -/
  | textureParams
  /-- It takes the index as its first parameter. -/
  | indexParam
  /-- It keeps its signature and declares a local instance. -/
  | localOnly
  /-- It takes the instance as its first parameter. -/
  | structParam
deriving DecidableEq

/-- Whether a type is a sampled image or an array of them. -/
def Tables.isSampler (tables : Tables) (type : TypeId) : Result Bool := do
  return (← tables.baseOf (tables.shapeOf type)).isSampledImage

namespace Category

/-- The variable that holds the index of the instance being drawn. -/
def indexName : Name := .exact "ANGLE_instanceIdMod"

/-- Built-ins that a vertex shader writes. -/
def isVertexOutput : BuiltIn → Bool
  | .position | .pointSize | .clipDistance => true
  | _ => false

/-- Built-ins that a fragment shader writes. -/
def isFragmentOutput : BuiltIn → Bool
  | .fragColor | .fragData | .fragDepth | .sampleMask => true
  | _ => false

/-- Built-ins that describe one run of a vertex shader. -/
def isVertexInvocation : BuiltIn → Bool
  | .vertexId => true
  | _ => false

/-- Built-ins that describe one run of a fragment shader. -/
def isFragmentInvocation : BuiltIn → Bool
  | .fragCoord | .frontFacing | .pointCoord | .sampleId | .samplePosition | .sampleMaskIn => true
  | _ => false

/-- Whether a global variable belongs to a category. `supplied` is the variable that holds the
supplied uniforms, if there is one. -/
def claims (category : Category) (tables : Tables) (supplied : Option VariableId)
    (id : VariableId) : Result Bool := do
  let entry ← tables.variableAt id
  match category with
  | instanceIndex => return entry.name = indexName
  | textures => tables.isSampler entry.type
  | mutableGlobals => return !entry.isConst && !entry.isInterface
  | suppliedUniforms => return supplied = some id
  | userUniforms => return entry.decorations.contains .uniform
  | vertexIn => return tables.stage = .vertex && entry.decorations.contains .input
  | vertexOut =>
    return tables.stage = .vertex &&
      (entry.decorations.contains .output || entry.builtIn.any isVertexOutput)
  | fragmentIn => return tables.stage = .fragment && entry.decorations.contains .input
  | fragmentOut =>
    return tables.stage = .fragment &&
      (entry.decorations.contains .output || entry.builtIn.any isFragmentOutput)
  | vertexInvocation => return entry.builtIn.any isVertexInvocation
  | fragmentInvocation => return entry.builtIn.any isFragmentInvocation

/-- A reserved name for one side of a category. -/
def reservedName (text : String) : Side → Name
  | .internal => .exact ("ANGLE_" ++ text)
  | .external => .exact ("ANGLE_metal_" ++ text)

/-- The name of a category's struct. -/
def structName (category : Category) (side : Side) : Name := reservedName category.label side

/-- The name of an instance of a category's struct. -/
def instanceName (category : Category) (side : Side) : Name :=
  reservedName category.instanceLabel side

/-- The memory that the entry point receives an external struct from. -/
def externalSpace : Category → AddressSpace
  | suppliedUniforms | userUniforms => .constant
  | _ => .thread

/-- Whether the entry point returns the struct. -/
def isOut : Category → Bool
  | vertexOut | fragmentOut => true
  | _ => false

/-- Whether the entry point takes the struct by value. -/
def isIn : Category → Bool
  | vertexIn | fragmentIn => true
  | _ => false

/-- How the entry point comes by an instance. -/
def entry : Category → EntryShape
  | vertexOut | fragmentOut => .returnsStruct
  | vertexInvocation | fragmentInvocation => .fieldParams
  | textures => .textureParams
  | instanceIndex => .indexParam
  | mutableGlobals => .localOnly
  | suppliedUniforms | userUniforms | vertexIn | fragmentIn => .structParam

/-- Whether the entry point declares an instance as a local variable in any case. It does so unless
it is handed one. -/
def alwaysLocal (category : Category) : Bool := category.entry != .structParam

/-- How the external layout of a category's struct differs from the internal one, if it can. -/
def layoutRules : Category → Option LayoutRules
  | vertexIn | fragmentIn => some ⟨.toInternal, true, false, false⟩
  | vertexOut | fragmentOut => some ⟨.toExternal, true, false, true⟩
  | userUniforms => some ⟨.toInternal, false, true, false⟩
  | _ => none

end Category

end ShaderPipeline
