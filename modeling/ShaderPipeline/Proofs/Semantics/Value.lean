import ShaderPipeline.Proofs.Types

/-!
# Values

A value is a scalar, a handle of a resource, or an aggregate of the parts of a
vector, a matrix, an array or a struct. A part is reached along a path of
positions. Reading past the end gives a default and writing there does nothing,
so both are total.
-/

namespace ShaderPipeline

/-- What a variable holds. -/
inductive Value where
  | scalar (value : Constant)
  /-- The components of a vector, columns of a matrix, elements of an array or fields of a struct. -/
  | aggregate (parts : List Value)
  /-- A resource that can only be handed on: a texture, a sampling state or what points at one. -/
  | handle (slot : Nat)

namespace Value

instance : Inhabited Value := ⟨.aggregate []⟩

/-- The part at a position. -/
def part : Value → Nat → Value
  | aggregate parts, position => parts[position]?.getD default
  | _, _ => default

/-- The value with another part at a position. -/
def setPart : Value → Nat → Value → Value
  | aggregate parts, position, value => aggregate (parts.set position value)
  | other, _, _ => other

/-- What is found along a path. -/
def read (value : Value) : List Nat → Value
  | [] => value
  | position :: path => (value.part position).read path

/-- The value with something else at the end of a path. -/
def write (value : Value) : List Nat → Value → Value
  | [], new => new
  | position :: path, new => value.setPart position ((value.part position).write path new)

/-- Whether a condition with this value holds. -/
def truth : Value → Bool
  | scalar (.bool holds) => holds
  | _ => false

/-- The position that an index with this value selects. -/
def position? : Value → Option Nat
  | scalar (.int value) => if 0 ≤ value.toInt then some value.toInt.toNat else none
  | scalar (.uint value) => some value.toNat
  | _ => none

/-- The parts of an aggregate are what it is made of. -/
theorem part_aggregate (parts : List Value) (position : Nat) :
    (aggregate parts).part position = parts[position]?.getD default := rfl

/-- Setting a part of an aggregate replaces it. -/
theorem setPart_aggregate (parts : List Value) (position : Nat) (value : Value) :
    (aggregate parts).setPart position value = aggregate (parts.set position value) := rfl

@[simp] theorem read_nil (value : Value) : value.read [] = value := rfl

@[simp] theorem read_cons (value : Value) (position : Nat) (path : List Nat) :
    value.read (position :: path) = (value.part position).read path := rfl

@[simp] theorem write_nil (value new : Value) : value.write [] new = new := rfl

@[simp] theorem write_cons (value : Value) (position : Nat) (path : List Nat) (new : Value) :
    value.write (position :: path) new =
      value.setPart position ((value.part position).write path new) := rfl

/-- A value may be read piece by piece along a path. -/
theorem read_append (value : Value) (first second : List Nat) :
    value.read (first ++ second) = (value.read first).read second := by
  induction first generalizing value with
  | nil => rfl
  | cons position first inductionHypothesis => exact inductionHypothesis (value.part position)

end Value

/-! ## Zero values -/

/-- The zero of a scalar. -/
def Scalar.zero : Scalar → Value
  | .void => default
  | .float => .scalar (.float 0)
  | .int => .scalar (.int 0)
  | .uint => .scalar (.uint 0)
  | .bool => .scalar (.bool false)

namespace Tables

/-- The zero value of a type, read through at most `depth` levels of structure. -/
def zeroWithin (tables : Tables) : (depth : Nat) → TypeId → Value
  | 0, _ => default
  | depth + 1, id =>
    match tables.types[id.index]? with
    | some (.scalar kind) => kind.zero
    | some (.vector component size) => .aggregate (.replicate size (tables.zeroWithin depth component))
    | some (.matrix column size) => .aggregate (.replicate size (tables.zeroWithin depth column))
    | some (.array element size) => .aggregate (.replicate size (tables.zeroWithin depth element))
    | some (.struct _ fields) =>
      .aggregate (fields.map fun field => tables.zeroWithin depth field.type)
    | _ => .handle 0

/-- The zero value of a type. Where every type is made of earlier ones, its identity bounds its
levels of structure. -/
def zero (tables : Tables) (id : TypeId) : Value := tables.zeroWithin (id.index + 1) id

/-- What a variable holds that was given no value. -/
def initial (tables : Tables) (id : VariableId) : Value :=
  match tables.vars[id.index]? with
  | some entry => tables.zero entry.type
  | none => default

variable {before after tables : Tables}

/-- Neither more levels nor later types change the zero value of a known type. -/
theorem Acyclic.zeroWithin_eq (acyclic : before.Acyclic) (extended : before.Extends after)
    {id : TypeId} (known : id.index < before.types.size) {depth further : Nat}
    (enough : id.index < depth) (more : id.index < further) :
    before.zeroWithin depth id = after.zeroWithin further id := by
  obtain ⟨index⟩ := id
  induction index using Nat.strongRecOn generalizing depth further with
  | ind index inductionHypothesis =>
    obtain ⟨depth, rfl⟩ := Nat.exists_eq_add_of_lt enough
    obtain ⟨further, rfl⟩ := Nat.exists_eq_add_of_lt more
    have there := Array.getElem?_eq_getElem known
    have parts : ∀ part ∈ before.types[index].parts,
        before.zeroWithin (index + depth) part = after.zeroWithin (index + further) part := by
      intro part inside
      have earlier := acyclic there part inside
      exact inductionHypothesis part.index earlier (Nat.lt_trans earlier known)
        (Nat.lt_of_lt_of_le earlier (Nat.le_add_right _ _))
        (Nat.lt_of_lt_of_le earlier (Nat.le_add_right _ _))
    simp only [zeroWithin, there, extended.types there]
    cases shape : before.types[index] with
    | vector component size => simp only [parts component (by simp [shape, Ty.parts])]
    | matrix column size => simp only [parts column (by simp [shape, Ty.parts])]
    | array element size => simp only [parts element (by simp [shape, Ty.parts])]
    | struct name fields =>
      simp only [Value.aggregate.injEq]
      refine List.map_congr_left fun field member => parts field.type ?_
      rw [shape]
      exact List.mem_map_of_mem member
    | _ => rfl

/-- Later types do not change the zero value of a known one. -/
theorem Acyclic.zero_extends (acyclic : before.Acyclic) (extended : before.Extends after)
    {id : TypeId} (known : id.index < before.types.size) : after.zero id = before.zero id :=
  (Acyclic.zeroWithin_eq acyclic extended known (Nat.lt_succ_self _) (Nat.lt_succ_self _)).symm

/-- The zero value of a struct has the zero values of its fields. -/
theorem Acyclic.zero_struct (acyclic : tables.Acyclic) {id : TypeId} {name : Name}
    {fields : List Field} (known : tables.types[id.index]? = some (.struct name fields)) :
    tables.zero id = .aggregate (fields.map fun field => tables.zero field.type) := by
  simp only [zero, zeroWithin, known, Value.aggregate.injEq]
  refine List.map_congr_left fun field member => ?_
  have earlier := acyclic known field.type (List.mem_map_of_mem member)
  have inside := Nat.lt_trans earlier (index_lt_of_getElem? known)
  exact Acyclic.zeroWithin_eq acyclic (.refl tables) inside earlier (Nat.lt_succ_self _)

end Tables

end ShaderPipeline
