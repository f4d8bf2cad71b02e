import Mathlib.Data.List.Forall2
import ShaderPipeline.Proofs.Remaining

/-!
# Where the fields of an external struct come from

`Layout.parts` lists, from the types alone, the internal field and the element of
it that every field of an external struct has to hold: the elements of an array
one by one, in row-major order, and built-ins ahead where the rules ask for it.
Placing the fields of a struct follows this list, in the tables of the moment and
in all later ones.
-/

namespace ShaderPipeline

/-! ## Shapes in later tables -/

namespace Tables

variable {before after : Tables}

/-- Later tables read at least the arrays that earlier tables read. -/
theorem Evolves.extents_prefix (evolves : before.Evolves after) {depth deeper : Nat}
    (deep : depth ≤ deeper) (id : TypeId) :
    (before.shapeWithin depth id).extents <+: (after.shapeWithin deeper id).extents := by
  induction depth generalizing deeper id with
  | zero => exact List.nil_prefix
  | succ depth inductionHypothesis =>
    obtain ⟨deeper, rfl⟩ : ∃ less, deeper = less + 1 := ⟨deeper - 1, by omega⟩
    simp only [shapeWithin]
    split
    case h_1 element size known =>
      rw [evolves.types known]
      exact List.prefix_cons_iff.mpr
        (.inr ⟨_, rfl, inductionHypothesis (Nat.le_of_succ_le_succ deep) element⟩)
    case h_2 => exact List.nil_prefix

end Tables

namespace Layout

variable {tables after later : Tables} {rules : LayoutRules}

/-! ## Parts -/

/-- A part of an internal struct: the element at a position of the field at `source`, or the whole
field if the position is empty. -/
structure Part where
  source : Nat
  field : Field
  position : List Nat

/-- The positions of the parts that the rules make of a field. -/
def partPositions (tables : Tables) (rules : LayoutRules) (type : TypeId) : List (List Nat) :=
  if rules.inlineArrays then positions (tables.shapeOf type).extents else [[]]

/-- The parts of the fields from the one at `source` on. -/
def partsFrom (tables : Tables) (rules : LayoutRules) : List Field → (source : Nat) → List Part
  | [], _ => []
  | field :: fields, source =>
    (partPositions tables rules field.type).map (Part.mk source field) ++
      partsFrom tables rules fields (source + 1)

/-- The parts of a struct in the order of the external layout. -/
def parts (tables : Tables) (rules : LayoutRules) (fields : List Field) : List Part :=
  let inOrder := partsFrom tables rules fields 0
  if rules.builtInsFirst then
    inOrder.filter (fun part => part.field.builtIn.isSome) ++
      inOrder.filter (fun part => !part.field.builtIn.isSome)
  else
    inOrder

/-- The external field is the one that holds the part. Its type may be another one. -/
def Part.HeldBy (part : Part) (external : Field) : Prop :=
  external = { part.field with
    name := partName part.field.name part.position
    type := external.type }

/-- The part is what was placed. -/
structure Part.PlacedAs (part : Part) (placement : Placement) : Prop where
  source : placement.source = part.source
  heldBy : part.HeldBy placement.field

/-- Parts have the sources of what was placed for them. -/
theorem sources_eq {inOrder : List Part} {placements : List Placement}
    (placed : List.Forall₂ Part.PlacedAs inOrder placements) :
    placements.map Placement.source = inOrder.map Part.source := by
  rw [← List.forall₂_eq_eq_eq, List.forall₂_map_left_iff, List.forall₂_map_right_iff]
  exact placed.flip.imp fun _ _ placed => placed.source

/-! ## Placing -/

/-- What is taken apart has its parts at the positions that all later tables give for it. -/
theorem Splits.partPositions_eq {type base : TypeId} {extents : List Nat}
    (splits : Splits tables rules type extents base) (evolves : tables.Evolves later) :
    partPositions later rules type = positions extents := by
  unfold Splits at splits
  unfold partPositions
  split at splits
  case isTrue inline =>
    have there := evolves.hasShape splits
    rw [if_pos inline, there.shapeOf_eq (Nat.le_of_lt there.length_lt)]
  case isFalse whole =>
    rw [if_neg whole, splits.1]
    rfl

/-- What is placed for a field is its parts, in order. -/
theorem placeField_parts {source : Nat} {field : Field} {placements : List Placement}
    (made : placeField tables rules source field = .ok (placements, after))
    (evolves : tables.Evolves later) :
    List.Forall₂ Part.PlacedAs
      ((partPositions later rules field.type).map (Part.mk source field)) placements := by
  rcases placeField_inv made with
    ⟨inline, empty, rfl, -⟩ | ⟨extents, base, external, splits, -, -, rfl⟩
  · -- Without elements, the arrays may go on for ever, but there are no positions at all.
    have still := (evolves.extents_prefix evolves.size_types field.type).subset empty
    rw [partPositions, if_pos inline, Tables.shapeOf, positions_eq_nil still]
    exact .nil
  · rw [splits.partPositions_eq evolves, List.forall₂_map_left_iff, List.forall₂_map_right_iff,
      List.forall₂_same]
    exact fun position _ => ⟨rfl, rfl⟩

/-- What is placed for several fields is their parts, field by field. -/
theorem placeFields_parts {source : Nat} {fields : List Field} {placements : List Placement}
    (made : placeFields tables rules fields source = .ok (placements, after))
    (evolves : after.Evolves later) :
    List.Forall₂ Part.PlacedAs (partsFrom later rules fields source) placements := by
  induction fields generalizing tables source placements with
  | nil =>
    obtain rfl : [] = placements := congrArg Prod.fst (Except.ok.inj made)
    exact .nil
  | cons field fields inductionHypothesis =>
    obtain ⟨first, middle, rest, firstOk, restOk, rfl⟩ := placeFields_cons_inv made
    have toLater := ((placeField_makes firstOk).trans
      (placeFields_makes restOk)).registers.evolves.trans evolves
    exact List.rel_append (placeField_parts firstOk toLater) (inductionHypothesis restOk)

/-- The external fields of a struct hold its parts, one by one. -/
theorem order_parts {fields : List Field} {placements : List Placement}
    (made : placeFields tables rules fields 0 = .ok (placements, after))
    (evolves : after.Evolves later) :
    List.Forall₂ Part.PlacedAs (parts later rules fields) (order rules placements) := by
  have each := placeFields_parts made evolves
  have builtIns {part : Part} {placement : Placement} (placed : part.PlacedAs placement) :
      placement.field.builtIn = part.field.builtIn := by rw [placed.heldBy]
  unfold parts order
  split
  case isFalse => exact each
  case isTrue =>
    rw [List.partition_eq_filter_filter]
    refine List.rel_append (List.rel_filter ?_ each) (List.rel_filter ?_ each)
    · exact fun part placement placed => by simp [builtIns placed]
    · exact fun part placement placed => by simp [builtIns placed]

end Layout

end ShaderPipeline
