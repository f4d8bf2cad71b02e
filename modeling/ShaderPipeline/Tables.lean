import ShaderPipeline.Failure
import ShaderPipeline.Declaration

/-!
# The tables of a shader

Types, variables and functions are kept in tables that only grow: a new entry
gets the next free identity, and no type or function changes once it is there.
Image, texture, array and pointer types are shared, so asking for one twice
gives the same identity. The identities that a new type mentions are not
checked.
-/

namespace ShaderPipeline

/-! ## Looking shared types up -/

/-- The identity of the first type that has a key. -/
def TypeKey.firstIn (key : TypeKey) (types : Array Ty) : Option TypeId :=
  (types.findIdx? (· == key.type)).map TypeId.mk

/-- The keys of the types from the one at `start` on, each with the identity of its type. -/
def sharedFrom (start : Nat) : List Ty → List (TypeKey × TypeId)
  | [] => []
  | type :: types =>
    match type.key? with
    | some key => (key, ⟨start⟩) :: sharedFrom (start + 1) types
    | none => sharedFrom (start + 1) types

namespace TypeKey

variable {key : TypeKey} {types : Array Ty}

/-- The shared types of a table are found where the table first holds them. -/
theorem lookup_sharedFrom (types : Array Ty) (key : TypeKey) :
    (sharedFrom 0 types.toList).lookup key = key.firstIn types := by
  have within (entries : List Ty) (start : Nat) : (sharedFrom start entries).lookup key =
      (entries.findIdx? (· == key.type)).map fun index => ⟨start + index⟩ := by
    induction entries generalizing start with
    | nil => rfl
    | cons type entries inductionHypothesis =>
      rw [sharedFrom, List.findIdx?_cons]
      by_cases same : type = key.type
      · simp [same]
      · have rest := inductionHypothesis (start + 1)
        cases other : type.key? with
        | none => simp [same, rest, Function.comp_def, Nat.add_assoc, Nat.add_comm 1]
        | some found =>
          have different : (key == found) = false := by
            rw [beq_eq_false_iff_ne]
            rintro rfl
            exact same (Ty.key?_eq_some_iff.mp other)
          simp [List.lookup_cons, different, same, rest, Function.comp_def, Nat.add_assoc,
            Nat.add_comm 1]
  rw [within, firstIn, ← List.findIdx?_toArray]
  simp only [Nat.zero_add]

/-- One more type matters if it is the first that has the key. -/
theorem firstIn_push (type : Ty) : key.firstIn (types.push type) =
    (key.firstIn types).or (if type = key.type then some ⟨types.size⟩ else none) := by
  rw [firstIn, Array.findIdx?_push, Option.map_or, firstIn]
  split <;> simp_all

end TypeKey

/-- The look-up of the shared types of a table. -/
structure SharedTypes (types : Array Ty) where
  entries : List (TypeKey × TypeId)
  /-- A key leads to the first type that has it. -/
  first : ∀ key, entries.lookup key = key.firstIn types

namespace SharedTypes

variable {types : Array Ty}

/-- The look-up for the types that are there. -/
def ofTypes (types : Array Ty) : SharedTypes types :=
  ⟨sharedFrom 0 types.toList, TypeKey.lookup_sharedFrom types⟩

/-- The identity that a key leads to. -/
def lookup (shared : SharedTypes types) (key : TypeKey) : Option TypeId :=
  shared.entries.lookup key

/-- Whatever the index is like, it finds a type where the table first holds it. -/
theorem lookup_eq (shared : SharedTypes types) (key : TypeKey) :
    shared.lookup key = key.firstIn types := shared.first key

/-- One more struct changes nothing. -/
def pushStruct (shared : SharedTypes types) (name : Name) (fields : List Field) :
    SharedTypes (types.push (.struct name fields)) where
  entries := shared.entries
  first key := by
    have other : Ty.struct name fields ≠ key.type := by cases key <;> simp [TypeKey.type]
    rw [TypeKey.firstIn_push, if_neg other, Option.or_none, shared.first]

/-- One more shared type, which was not known. -/
def pushShared (shared : SharedTypes types) (key : TypeKey) (unknown : shared.lookup key = none) :
    SharedTypes (types.push key.type) where
  entries := (key, ⟨types.size⟩) :: shared.entries
  first other := by
    rw [lookup_eq] at unknown
    rw [TypeKey.firstIn_push, List.lookup_cons, shared.first]
    by_cases same : other = key
    · simp [same, unknown]
    · have different : key.type ≠ other.type := fun sameType =>
        same (TypeKey.type_injective sameType).symm
      simp [beq_false_of_ne same, different]

end SharedTypes

/-- The types, variables and functions of a shader, and the stage that it runs in. -/
structure Tables where
  stage : Stage
  types : Array Ty := predefinedTypes.toArray
  /-- The identity of every shared type. -/
  shared : SharedTypes types := .ofTypes types
  vars : Array Variable := #[]
  functions : Array Function := #[]
  /-- The texture environment of every image kind that has one. -/
  textureEnvs : List (ImageKind × TypeId) := []

namespace Tables

/-! ## Look-ups -/

/-- The type with an identity. -/
def typeAt (tables : Tables) (id : TypeId) : Result Ty :=
  found tables.types[id.index]?

/-- The variable with an identity. -/
def variableAt (tables : Tables) (id : VariableId) : Result Variable :=
  found tables.vars[id.index]?

/-- The function with an identity. -/
def functionAt (tables : Tables) (id : FunctionId) : Result Function :=
  found tables.functions[id.index]?

/-- The fields of a type that has to be a struct. -/
def fieldsOf (tables : Tables) (id : TypeId) : Result (List Field) := do
  match (← tables.typeAt id).fields? with
  | some fields => .ok fields
  | none => defect .expectedStruct

/-- One field of a type that has to be a struct. -/
def fieldAt (tables : Tables) (id : TypeId) (position : Nat) : Result Field := do
  found (← tables.fieldsOf id)[position]?

/-- The name of a type that has to be a struct. -/
def structName (tables : Tables) (id : TypeId) : Result Name := do
  match ← tables.typeAt id with
  | .struct name _ => .ok name
  | _ => defect .expectedStruct

/-- The position of the first field with the given text as its name. -/
def findField (tables : Tables) (id : TypeId) (text : String) : Result Nat := do
  let fields ← tables.fieldsOf id
  match fields.findIdx? (fun field => field.name.text == text) with
  | some position => .ok position
  | none => report (.missingField (← tables.structName id).text text)

/-! ## Types -/

/-- Adds a struct under the next free identity. It may have no fields. -/
def addStruct (tables : Tables) (name : Name) (fields : List Field) : TypeId × Tables :=
  (⟨tables.types.size⟩, { tables with
    types := tables.types.push (.struct name fields)
    shared := tables.shared.pushStruct name fields })

/-- The identity under which a shared type is known. -/
def find? (tables : Tables) (key : TypeKey) : Option TypeId := tables.shared.lookup key

/-- Adds a shared type under the next free identity, so that it can be looked up. -/
def addShared (tables : Tables) (key : TypeKey) (unknown : tables.find? key = none) :
    TypeId × Tables :=
  (⟨tables.types.size⟩, { tables with
    types := tables.types.push key.type
    shared := tables.shared.pushShared key unknown })

/-- The identity of a shared type, which is added if it is not known yet. -/
def intern (tables : Tables) (key : TypeKey) : TypeId × Tables :=
  match found : tables.find? key with
  | some id => (id, tables)
  | none => tables.addShared key found

/-- The identity of the predefined vector of two to four components. -/
def vectorType (component : Scalar) (size : Nat) : Result TypeId := do
  ensure (2 ≤ size && size ≤ 4)
  match component with
  | .float => .ok ⟨5 + (size - 2)⟩
  | .int => .ok ⟨8 + (size - 2)⟩
  | .uint => .ok ⟨11 + (size - 2)⟩
  | .bool => .ok ⟨14 + (size - 2)⟩
  | .void => defect .notVectorable

/-- The name of every texture environment. -/
def textureEnvName : Name := .exact "ANGLE_TextureEnv"

/-- The fields of a texture environment: the texture, then the sampling state. -/
def textureEnvFields (texture sampler : TypeId) : List Field :=
  [⟨.exact "texture", texture, .notApplicable, [], none⟩,
   ⟨.exact "sampler", sampler, .notApplicable, [], none⟩]

/-- Registers the texture environment of an image kind. -/
def registerEnv (tables : Tables) (kind : ImageKind) (id : TypeId) : Tables :=
  { tables with textureEnvs := (kind, id) :: tables.textureEnvs }

/-- The struct that stands for a sampler: a pointer to its texture and one to its sampling state.
There is one such struct for every image kind. -/
def textureEnv (tables : Tables) (kind : ImageKind) : TypeId × Tables :=
  match tables.textureEnvs.lookup kind with
  | some id => (id, tables)
  | none =>
    let (texture, tables) := tables.intern (.texture kind)
    let (texturePointer, tables) := tables.intern (.pointer texture)
    let (samplerPointer, tables) := tables.intern (.pointer .sampler)
    let (id, tables) :=
      tables.addStruct textureEnvName (textureEnvFields texturePointer samplerPointer)
    (id, tables.registerEnv kind id)

/-- A new struct with at least one field. -/
def createStruct (tables : Tables) (name : Name) (fields : List Field) :
    Result (TypeId × Tables) := do
  ensure (!fields.isEmpty)
  return tables.addStruct name fields

/-! ## Variables -/

/-- Adds a variable, whose type has to be known and in use. -/
def declare (tables : Tables) (entry : Variable) : Result (VariableId × Tables) := do
  ensure (!(← tables.typeAt entry.type).isEliminated)
  return (⟨tables.vars.size⟩, { tables with vars := tables.vars.push entry })

/-- A variable that holds an instance of a struct. -/
def createInstance (tables : Tables) (type : TypeId) (name : Name) (scope : Scope) :
    Result (VariableId × Tables) := do
  ensure (← tables.typeAt type).isStruct
  tables.declare { name, type, scope }

/-- A parameter that is passed by value. -/
def createParam (tables : Tables) (name : Name) (type : TypeId) (precision : Precision) :
    Result (Param × Tables) := do
  let (id, tables) ← tables.declare { name, type, precision, scope := .parameter }
  return (⟨id, .input⟩, tables)

/-- Changes the entry of one variable. -/
def updateVariable (tables : Tables) (id : VariableId) (change : Variable → Variable) :
    Result Tables :=
  if id.index < tables.vars.size then
    .ok { tables with vars := tables.vars.modify id.index change }
  else
    fault .outOfRange

/-- Makes a variable a reference into an address space. -/
def markReference (tables : Tables) (id : VariableId) (space : AddressSpace) : Result Tables :=
  tables.updateVariable id fun entry => { entry with reference := some space }

/-- Flags a variable as no longer declared anywhere. -/
def eliminate (tables : Tables) (id : VariableId) : Result Tables :=
  tables.updateVariable id fun entry => { entry with eliminated := true }

/-! ## Functions -/

/-- Adds a function under the next free identity. -/
def addFunction (tables : Tables) (function : Function) : FunctionId × Tables :=
  (⟨tables.functions.size⟩, { tables with functions := tables.functions.push function })

/-- Adds a changed copy of a function, which shares the variables of its parameters. -/
def cloneFunction (tables : Tables) (id : FunctionId) (change : Function → Function) :
    Result (FunctionId × Tables) := do
  return tables.addFunction (change (← tables.functionAt id))

end Tables

end ShaderPipeline
