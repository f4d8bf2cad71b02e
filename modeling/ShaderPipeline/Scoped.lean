/-!
# Internal and external counterparts

The internal side is what the code of the shader works with, the external side
is what crosses its boundary. Where the two do not differ, both are the same.
-/

namespace ShaderPipeline

/-- The internal and the external counterpart of something, either of which may be missing. -/
structure Scoped (α : Type) where
  internal : Option α := none
  external : Option α := none
deriving DecidableEq

namespace Scoped

variable {α : Type}

/-- The same thing on both sides. -/
def uniform (value : α) : Scoped α := ⟨some value, some value⟩

def isEmpty (pair : Scoped α) : Bool := pair.internal.isNone && pair.external.isNone

def isFull (pair : Scoped α) : Bool := pair.internal.isSome && pair.external.isSome

/-- Whether both sides are the same; two missing sides are. -/
def isUniform [DecidableEq α] (pair : Scoped α) : Bool := pair.internal = pair.external

/-- What is the same on both sides is uniform. -/
@[simp] theorem isUniform_uniform [DecidableEq α] (value : α) :
    (uniform value).isUniform = true := by
  simp [uniform, isUniform]

end Scoped

end ShaderPipeline
