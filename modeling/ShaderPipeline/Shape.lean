import ShaderPipeline.Tables
import ShaderPipeline.Expr

/-!
# The array structure of a type

Reading a type through its arrays gives their extents, outermost first, and the
type underneath. Everything that goes through the elements of a value works on
this shape, and positions in it are listed in row-major order.
-/

namespace ShaderPipeline

/-- The extents of a type's arrays, outermost first, and the type under them. -/
structure Shape where
  extents : List Nat
  base : TypeId
deriving DecidableEq

namespace Tables

/-- Reads at most `depth` arrays of a type. -/
def shapeWithin (tables : Tables) : (depth : Nat) → TypeId → Shape
  | 0, id => ⟨[], id⟩
  | depth + 1, id =>
    match tables.types[id.index]? with
    | some (.array element size) =>
      let inner := tables.shapeWithin depth element
      ⟨size :: inner.extents, inner.base⟩
    | _ => ⟨[], id⟩

/-- The array structure of a type. No type that ends has more arrays than there are types. -/
def shapeOf (tables : Tables) (id : TypeId) : Shape :=
  tables.shapeWithin tables.types.size id

/-- The type under the arrays of a shape, which has to be known and no array itself. -/
def baseOf (tables : Tables) (shape : Shape) : Result Ty := do
  let base ← tables.typeAt shape.base
  if base.isArray then fault .endlessType else return base

/-- The array type with the given extents, outermost first, over a type. -/
def arrayOver (tables : Tables) (extents : List Nat) (base : TypeId) : TypeId × Tables :=
  match extents with
  | [] => (base, tables)
  | size :: inner =>
    let (element, tables) := tables.arrayOver inner base
    tables.intern (.array element size)

end Tables

/-- Every position in an array with the given extents, in row-major order. -/
def positions : List Nat → List (List Nat)
  | [] => [[]]
  | size :: inner => (List.range size).flatMap fun first => (positions inner).map (first :: ·)

/-- The part of a value at a position. -/
def Expr.atPosition (base : Expr) (position : List Nat) : Expr :=
  position.foldl (fun part element => .index part (.int element)) base

end ShaderPipeline
