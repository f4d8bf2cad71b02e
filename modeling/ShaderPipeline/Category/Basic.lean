/-!
# Categories of global state

A category is a part of a shader's global state that is gathered in one struct:
inputs, outputs, uniforms, textures and so on. The order of `Category.all` is the
order of processing, and a category sees the shader as its predecessors left it.
-/

namespace ShaderPipeline

/-- A category of global state. -/
inductive Category where
  /-- The index of the instance being drawn. -/
  | instanceIndex
  /-- Samplers, which are split into textures and sampling states. -/
  | textures
  /-- Globals of the shader itself that it may change. -/
  | mutableGlobals
  /-- Uniforms that the caller supplies in one instance of a struct. -/
  | suppliedUniforms
  | userUniforms
  | vertexIn
  | vertexOut
  | fragmentIn
  | fragmentOut
  /-- Built-ins that describe one run of a vertex shader. -/
  | vertexInvocation
  /-- Built-ins that describe one run of a fragment shader. -/
  | fragmentInvocation
deriving DecidableEq

namespace Category

/-- All categories, in the order of processing. -/
def all : List Category :=
  [instanceIndex, textures, mutableGlobals, suppliedUniforms, userUniforms, vertexIn, vertexOut,
   fragmentIn, fragmentOut, vertexInvocation, fragmentInvocation]

/-- The text that names a category in struct names, messages and journals. -/
def label : Category → String
  | instanceIndex => "InstanceId"
  | textures => "TextureEnvs"
  | mutableGlobals => "NonConstGlobals"
  | suppliedUniforms => "UniformState"
  | userUniforms => "UserUniforms"
  | vertexIn => "VertexIn"
  | vertexOut => "VertexOut"
  | fragmentIn => "FragmentIn"
  | fragmentOut => "FragmentOut"
  | vertexInvocation => "InvocationVertexGlobals"
  | fragmentInvocation => "InvocationFragmentGlobals"

/-- The text that names an instance of a category's struct. -/
def instanceLabel : Category → String
  | instanceIndex => "instanceId"
  | textures => "textureEnvs"
  | mutableGlobals => "nonConstGlobals"
  | suppliedUniforms => "angleUniforms"
  | userUniforms => "userUniforms"
  | vertexIn => "vertexIn"
  | vertexOut => "vertexOut"
  | fragmentIn => "fragmentIn"
  | fragmentOut => "fragmentOut"
  | vertexInvocation => "invocationVertexGlobals"
  | fragmentInvocation => "invocationFragmentGlobals"

end Category

end ShaderPipeline
