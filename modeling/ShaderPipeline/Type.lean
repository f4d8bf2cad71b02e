import ShaderPipeline.Name

/-!
# Types

A type is described by one level of structure whose parts are type identities,
so a whole type is read by following identities through the type table. The
first twenty-one identities are fixed: the scalars, the vectors and square
matrices over them, and the sampling state.
-/

namespace ShaderPipeline

/-- The precision of a numeric value. -/
inductive Precision where
  | notApplicable
  | low
  | medium
  | high
deriving DecidableEq

/-- A qualifier of a variable or of a struct field. -/
inductive Decoration where
  | precise
  | smooth
  | flat
  | noPerspective
  | centroid
  | sample
  | uniform
  | input
  | output
  | location (slot : Nat)
  | binding (slot : Nat)
deriving DecidableEq

/-- The variables that the shading language itself provides. -/
inductive BuiltIn where
  | vertexId
  | instanceId
  | position
  | pointSize
  | clipDistance
  | fragCoord
  | frontFacing
  | pointCoord
  | sampleId
  | samplePosition
  | sampleMaskIn
  | fragColor
  | fragData
  | fragDepth
  | sampleMask
deriving DecidableEq

/-- The basic kinds of value. -/
inductive Scalar where
  | void
  | float
  | int
  | uint
  | bool
deriving DecidableEq

/-- What the texels of an image hold. -/
inductive Texel where
  | float
  | int
  | uint
deriving DecidableEq

/-- The arrangement of the texels of an image. -/
inductive Dimension where
  | planar
  | volume
  | cube
deriving DecidableEq

/-- Everything that tells one image type from another. -/
structure ImageKind where
  texel : Texel
  dimension : Dimension
  sampled : Bool
  arrayed : Bool
  multisampled : Bool
  shadow : Bool
deriving DecidableEq

/-- A field of a struct. `builtIn` is set when the field stands in for a built-in variable. -/
structure Field where
  name : Name
  type : TypeId
  precision : Precision
  decorations : List Decoration
  builtIn : Option BuiltIn
deriving DecidableEq

/-- One level of a type. -/
inductive Ty where
  | scalar (kind : Scalar)
  | vector (component : TypeId) (size : Nat)
  | matrix (column : TypeId) (size : Nat)
  /-- A sampler or image, as the shader declares it. -/
  | image (kind : ImageKind)
  /-- The texture half of a sampler. -/
  | texture (kind : ImageKind)
  /-- The sampling-state half of a sampler. -/
  | sampler
  | struct (name : Name) (fields : List Field)
  | array (element : TypeId) (size : Nat)
  | pointer (pointee : TypeId)
  /-- A type that is no longer declared anywhere. -/
  | eliminated
deriving DecidableEq

namespace Ty

def isScalar : Ty → Bool
  | scalar _ => true
  | _ => false

def isArray : Ty → Bool
  | array _ _ => true
  | _ => false

def isStruct : Ty → Bool
  | struct _ _ => true
  | _ => false

def isSampledImage : Ty → Bool
  | image kind => kind.sampled
  | _ => false

def isEliminated : Ty → Bool
  | eliminated => true
  | _ => false

/-- The type that indexing (or following a pointer) leads to. -/
def element? : Ty → Option TypeId
  | vector component _ => some component
  | matrix column _ => some column
  | array element _ => some element
  | pointer pointee => some pointee
  | _ => none

/-- The fields of a struct. -/
def fields? : Ty → Option (List Field)
  | struct _ fields => some fields
  | _ => none

/-- The type identities that a type is made of. -/
def parts : Ty → List TypeId
  | vector component _ => [component]
  | matrix column _ => [column]
  | struct _ fields => fields.map Field.type
  | array element _ => [element]
  | pointer pointee => [pointee]
  | _ => []

end Ty

/-- What a shared type is looked up by. -/
inductive TypeKey where
  | image (kind : ImageKind)
  | texture (kind : ImageKind)
  | array (element : TypeId) (size : Nat)
  | pointer (pointee : TypeId)
deriving DecidableEq

/-- The type that has a key. -/
def TypeKey.type : TypeKey → Ty
  | image kind => .image kind
  | texture kind => .texture kind
  | array element size => .array element size
  | pointer pointee => .pointer pointee

/-- The key of a shared type. -/
def Ty.key? : Ty → Option TypeKey
  | image kind => some (.image kind)
  | texture kind => some (.texture kind)
  | array element size => some (.array element size)
  | pointer pointee => some (.pointer pointee)
  | _ => none

@[simp] theorem TypeKey.key?_type (key : TypeKey) : key.type.key? = some key := by
  cases key <;> rfl

/-- No two keys are for the same type. -/
theorem TypeKey.type_injective {key other : TypeKey} (same : key.type = other.type) :
    key = other := by
  rw [← Option.some.injEq, ← key?_type key, ← key?_type other, same]

/-- The key of a type is the one that gives the type back. -/
theorem Ty.key?_eq_some_iff {type : Ty} {key : TypeKey} :
    type.key? = some key ↔ type = key.type := by
  cases type <;> cases key <;> simp [key?, TypeKey.type]

namespace TypeId

def void : TypeId := ⟨0⟩

def float : TypeId := ⟨1⟩

def int : TypeId := ⟨2⟩

def uint : TypeId := ⟨3⟩

def bool : TypeId := ⟨4⟩

/-- The four-component float vector, which is what sampling a texture gives. -/
def vec4 : TypeId := ⟨7⟩

/-- The sampling state. -/
def sampler : TypeId := ⟨20⟩

end TypeId

/-- The types that every table starts with, in the order of their fixed identities. -/
def predefinedTypes : List Ty :=
  [.scalar .void, .scalar .float, .scalar .int, .scalar .uint, .scalar .bool,
   .vector ⟨1⟩ 2, .vector ⟨1⟩ 3, .vector ⟨1⟩ 4,
   .vector ⟨2⟩ 2, .vector ⟨2⟩ 3, .vector ⟨2⟩ 4,
   .vector ⟨3⟩ 2, .vector ⟨3⟩ 3, .vector ⟨3⟩ 4,
   .vector ⟨4⟩ 2, .vector ⟨4⟩ 3, .vector ⟨4⟩ 4,
   .matrix ⟨5⟩ 2, .matrix ⟨6⟩ 3, .matrix ⟨7⟩ 4,
   .sampler]

end ShaderPipeline
