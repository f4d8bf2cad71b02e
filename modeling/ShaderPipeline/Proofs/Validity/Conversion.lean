import ShaderPipeline.Proofs.Layout
import ShaderPipeline.Proofs.Validity.Rules
import ShaderPipeline.Proofs.Validity.Typing

/-!
# Validity of conversions

The body of a conversion function assigns the parts of one struct to those of the
other. Every part is reached through fields and elements that are there, so the
body is valid wherever the two structs are visible.
-/

namespace ShaderPipeline

namespace Layout

open Validity (Context checkExpr)

variable {context : Context} {visible : List VariableId}

/-- A position has an index for each extent. -/
theorem length_of_mem_positions {extents position : List Nat} (member : position ∈ positions extents) :
    position.length = extents.length := by
  induction extents generalizing position with
  | nil => simp_all [positions]
  | cons size inner inductionHypothesis =>
    obtain ⟨first, -, member⟩ := List.mem_flatMap.mp member
    obtain ⟨rest, inside, rfl⟩ := List.mem_map.mp member
    simp [inductionHypothesis inside]

/-- The elements of an array can be reached. -/
theorem checkExpr_atPosition {type base : TypeId} {extents position : List Nat} {expr : Expr}
    (shape : context.tables.HasShape type extents base)
    (checked : checkExpr context visible expr = .ok ())
    (typed : context.tables.typeOf expr = .ok type) (deep : position.length = extents.length) :
    checkExpr context visible (expr.atPosition position) = .ok () ∧
      context.tables.typeOf (expr.atPosition position) = .ok base := by
  induction shape generalizing expr position with
  | base =>
    obtain rfl : position = [] := by simpa using deep
    exact ⟨checked, typed⟩
  | array array _ inductionHypothesis =>
    cases position with
    | nil => simp at deep
    | cons first position =>
      refine @inductionHypothesis position (.index expr (.int first)) ?_ ?_ (by simpa using deep)
      · exact Validity.checkExpr_index_iff.mpr ⟨checked, Validity.checkExpr_const _, _, _, _, typed,
          array, rfl⟩
      · exact Tables.typeOf_index_iff.mpr ⟨_, _, typed, array, rfl⟩

/-- An assignment between valid expressions of one type. -/
def Assigns (context : Context) (visible : List VariableId) (stmt : Stmt) : Prop :=
  ∃ target value type, stmt = .assign target value ∧
    checkExpr context visible target = .ok () ∧ checkExpr context visible value = .ok () ∧
    context.tables.typeOf target = .ok type ∧ context.tables.typeOf value = .ok type

/-- Copying between parts of the same or of widened type is made of assignments. -/
theorem copy_assigns {target value : Expr} {targetType valueType : TypeId}
    (targetOk : checkExpr context visible target = .ok ())
    (targetTyped : context.tables.typeOf target = .ok targetType)
    (valueOk : checkExpr context visible value = .ok ())
    (valueTyped : context.tables.typeOf value = .ok valueType)
    (sameShape : targetType = valueType ∨ ∃ extents targetBase valueBase,
      context.tables.HasShape targetType extents targetBase ∧
        context.tables.HasShape valueType extents valueBase) :
    ∀ stmt ∈ copy context.tables target targetType value valueType,
      Assigns context visible stmt := by
  unfold copy
  split
  case isTrue sameType =>
    intro stmt member
    obtain rfl := List.mem_singleton.mp member
    exact ⟨target, value, targetType, rfl, targetOk, valueOk, targetTyped, sameType ▸ valueTyped⟩
  case isFalse differ =>
    obtain ⟨extents, targetBase, valueBase, targetShape, valueShape⟩ :=
      sameShape.resolve_left differ
    have shapeIs := targetShape.shapeOf_eq (Nat.le_of_lt targetShape.length_lt)
    intro stmt member
    obtain ⟨position, own, rfl⟩ := List.mem_map.mp member
    have deep : position.length = extents.length := by
      simpa [shapeIs] using length_of_mem_positions own
    obtain ⟨targetPartOk, partTyped⟩ := checkExpr_atPosition targetShape targetOk targetTyped deep
    obtain ⟨valuePartOk, -⟩ := checkExpr_atPosition valueShape valueOk valueTyped deep
    rw [shapeIs]
    exact ⟨_, _, targetBase, rfl, targetPartOk,
      Validity.checkExpr_construct_iff.mpr (by simpa using valuePartOk), partTyped, rfl⟩

/-- The conversion between two structs that are visible is made of assignments. -/
theorem convertBody_assigns (conversion : Conversion) {rules : LayoutRules}
    {internal external : VariableId} {struct outer : TypeId} {name outerName : Name}
    {fields : List Field} {placements : List Placement}
    (internalOk : checkExpr context visible (.var internal) = .ok ())
    (internalTyped : context.tables.typeOf (.var internal) = .ok struct)
    (structKnown : context.tables.types[struct.index]? = some (.struct name fields))
    (externalOk : checkExpr context visible (.var external) = .ok ())
    (externalTyped : context.tables.typeOf (.var external) = .ok outer)
    (outerKnown : context.tables.types[outer.index]? =
      some (.struct outerName (placements.map Placement.field)))
    (holds : ∀ placement ∈ placements, Holds context.tables rules fields placement) :
    ∀ stmt ∈ convertBody context.tables conversion internal external placements,
      Assigns context visible stmt := by
  intro stmt member
  obtain ⟨block, chosen, own⟩ := List.mem_flatten.mp member
  obtain ⟨place, inside, rfl⟩ := List.mem_mapIdx.mp chosen
  obtain ⟨field, there, extents, splits, position, retypes⟩ :=
    holds placements[place] (List.getElem_mem inside)
  -- Both sides of the assignment can be reached.
  have outerOk : checkExpr context visible (.field (.var external) place) = .ok () :=
    Validity.checkExpr_field_iff.mpr ⟨externalOk, outer, outerName, _, externalTyped, outerKnown,
      by simpa using inside⟩
  have outerTyped : context.tables.typeOf (.field (.var external) place) =
      .ok placements[place].field.type :=
    Tables.typeOf_field_iff.mpr ⟨outer, outerName, _, placements[place].field, externalTyped,
      outerKnown, by simp [inside], rfl⟩
  have fieldOk : checkExpr context visible (.field (.var internal) placements[place].source) =
      .ok () :=
    Validity.checkExpr_field_iff.mpr ⟨internalOk, struct, name, fields, internalTyped, structKnown,
      (List.getElem?_eq_some_iff.mp there).1⟩
  have fieldTyped : context.tables.typeOf (.field (.var internal) placements[place].source) =
      .ok field.type :=
    Tables.typeOf_field_iff.mpr ⟨struct, name, fields, field, internalTyped, structKnown, there,
      rfl⟩
  obtain ⟨innerOk, innerTyped⟩ : checkExpr context visible ((Expr.field (.var internal)
        placements[place].source).atPosition placements[place].position) = .ok () ∧
      context.tables.typeOf ((Expr.field (.var internal) placements[place].source).atPosition
        placements[place].position) = .ok placements[place].type := by
    unfold Splits at splits
    split at splits
    · exact checkExpr_atPosition splits fieldOk fieldTyped (length_of_mem_positions position)
    · obtain ⟨rfl, same⟩ := splits
      obtain nil : placements[place].position = [] := by simpa [positions] using position
      rw [nil, same]
      exact ⟨fieldOk, fieldTyped⟩
  have sameShape : placements[place].field.type = placements[place].type ∨
      ∃ extents wideBase base,
        context.tables.HasShape placements[place].field.type extents wideBase ∧
        context.tables.HasShape placements[place].type extents base := by
    by_cases same : placements[place].field.type = placements[place].type
    · exact .inl same
    · obtain ⟨-, extents, base, wideBase, shape, -, wideShape⟩ := retypes.widened same
      exact .inr ⟨extents, wideBase, base, wideShape, shape⟩
  unfold convertField at own
  cases conversion with
  | toExternal => exact copy_assigns outerOk outerTyped innerOk innerTyped sameShape stmt own
  | toInternal =>
    refine copy_assigns innerOk innerTyped outerOk outerTyped ?_ stmt own
    rcases sameShape with same | ⟨extents, wideBase, base, wideShape, shape⟩
    · exact .inl same.symm
    · exact .inr ⟨extents, base, wideBase, shape, wideShape⟩

/-- So it is valid. -/
theorem Assigns.checkStmts {stmts : List Stmt}
    (each : ∀ stmt ∈ stmts, Assigns context visible stmt) :
    Validity.checkStmts context stmts visible = .ok () :=
  (Validity.checkStmts_of_forall fun stmt member => by
    obtain ⟨target, value, -, rfl, targetOk, valueOk, -⟩ := each stmt member
    exact ⟨rfl, targetOk, valueOk⟩).1

end Layout

end ShaderPipeline
