import ShaderPipeline.Invariance
import ShaderPipeline.Program
import ShaderPipeline.Reflection

/-!
# Shaders

A shader is a program together with what is registered about its variables.
-/

namespace ShaderPipeline

/-- A program, its invariant variables and fields, and the names its variables came from. -/
structure Shader where
  program : Program
  invariance : Invariance := {}
  reflection : Reflection := {}

/-- A shader without declarations. -/
def Shader.empty (stage : Stage) : Shader := { program := .empty stage }

end ShaderPipeline
