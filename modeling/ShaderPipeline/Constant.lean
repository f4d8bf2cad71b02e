import ShaderPipeline.Type

/-!
# Constants

Constants are machine words. A float is kept as its bit pattern, so that the
sign of zero and the payload of a NaN survive.
-/

namespace ShaderPipeline

/-- A literal value. -/
inductive Constant where
  | float (bits : UInt32)
  | int (value : Int32)
  | uint (value : UInt32)
  | bool (value : Bool)
deriving DecidableEq

namespace Constant

/-- The type of a literal. -/
def type : Constant → TypeId
  | float _ => .float
  | int _ => .int
  | uint _ => .uint
  | bool _ => .bool

end Constant

end ShaderPipeline
