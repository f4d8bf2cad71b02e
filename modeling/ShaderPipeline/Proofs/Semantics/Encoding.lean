import ShaderPipeline.Proofs.Semantics.Coverage

/-!
# Values in an external layout

The value of a struct is encoded for the external layout part by part: the
elements of arrays one after the other, truth values as numbers, built-ins first.
The placements of the external fields hold just these parts, each with the type of
its field. What is copied in either direction covers the struct that is written.
-/

namespace ShaderPipeline

/-- The part of a struct's value that an external field holds. -/
def Placement.held (value : Value) (placement : Placement) : Value :=
  if placement.field.type = placement.type then
    value.read (placement.source :: placement.position)
  else
    (value.read (placement.source :: placement.position)).widen

/-- Where a part is written that is copied from a part of some type: all at once, or element by
element if the types differ. -/
def Layout.copyPaths (tables : Tables) (targetType valueType : TypeId) : List (List Nat) :=
  if targetType = valueType then [[]] else positions (tables.shapeOf targetType).extents

/-- Where the parts of an external field belong in the internal struct. -/
def Placement.innerPaths (tables : Tables) (placement : Placement) : List (List Nat) :=
  (Layout.copyPaths tables placement.type placement.field.type).map
    fun path => placement.source :: (placement.position ++ path)

/-- Where they belong in the external struct, if the field is the one at `place`. -/
def Placement.outerPaths (tables : Tables) (place : Nat) (placement : Placement) :
    List (List Nat) :=
  (Layout.copyPaths tables placement.field.type placement.type).map (place :: ·)

namespace Layout

/-- A part of a value as the external struct holds it. -/
def encodePart (tables : Tables) (rules : LayoutRules) (type : TypeId) (value : Value) : Value :=
  if rules.widenBools && tables.types[(tables.shapeOf type).base.index]?.any Ty.isTruth then
    value.widen
  else
    value

/-- The parts of a value of some type in the external struct, and whether they stand for a
built-in. -/
def encodeParts (tables : Tables) (rules : LayoutRules) (builtIn : Bool) (type : TypeId)
    (value : Value) : List (Bool × Value) :=
  let shape := if rules.inlineArrays then tables.shapeOf type else ⟨[], type⟩
  (positions shape.extents).map fun position =>
    (builtIn, encodePart tables rules shape.base (value.read position))

/-- The parts in the order of the external struct. -/
def arrange (rules : LayoutRules) (parts : List (Bool × Value)) : List Value :=
  if rules.builtInsFirst then
    (parts.filter Prod.fst ++ parts.filter fun part => !part.1).map Prod.snd
  else
    parts.map Prod.snd

variable {before tables : Tables} {rules : LayoutRules}

/-- The order of the external struct is that of its placements. -/
theorem arrange_map (placements : List Placement) (held : Placement → Value) :
    arrange rules (placements.map fun placement =>
        (placement.field.builtIn.isSome, held placement)) =
      (order rules placements).map held := by
  unfold arrange order
  split
  · simp only [List.partition_eq_filter_filter, List.filter_map, List.map_append, List.map_map]
    rfl
  · simp

section Encoding

variable (acyclic : before.Acyclic) (extended : before.Extends tables) (sound : tables.Sound)

include acyclic extended

/-- The shape of a type does not change when the tables grow. -/
theorem shapeOf_known {type : TypeId} (inside : type.index < before.types.size)
    {extents : List Nat} {base : TypeId} (shape : tables.HasShape type extents base) :
    before.shapeOf type = ⟨extents, base⟩ ∧ base.index < before.types.size ∧
      ∀ entry, tables.types[base.index]? = some entry →
        before.types[base.index]? = some entry := by
  have known := acyclic.shapeOf_eq inside
  obtain ⟨entry, there, -⟩ := known.base_known
  obtain ⟨sameExtents, sameBase⟩ := shape.unique (known.extends extended)
  rw [sameBase] at there
  refine ⟨by rw [← sameExtents, ← sameBase], Tables.index_lt_of_getElem? there,
    fun other also => ?_⟩
  rw [there, ← also, extended.types there]

include sound

/-- A placement widens just the truth values. -/
theorem encodePart_eq {base external : TypeId} (inside : base.index < before.types.size)
    (retypes : Retypes tables rules base external) (value : Value) :
    encodePart before rules base value = if external = base then value else value.widen := by
  unfold Retypes at retypes
  unfold encodePart
  cases widens : rules.widenBools with
  | false =>
    obtain rfl : external = base := by simpa [widens] using retypes
    simp
  | true =>
    rw [widens, if_pos rfl] at retypes
    cases retypes with
    | same shape known plain =>
      obtain ⟨isShape, -, there⟩ := shapeOf_known acyclic extended inside shape
      simp [isShape, there _ known, plain]
    | widened shape wider wideShape =>
      obtain ⟨isShape, -, there⟩ := shapeOf_known acyclic extended inside shape
      obtain ⟨entry, known, isTruth⟩ := wider.isTruth
      have differ : external ≠ base := by
        rintro rfl
        exact wider.ne sound (shape.unique wideShape).2
      simp [isShape, there _ known, isTruth, differ]

/-- The external fields for one field hold its encoded parts. -/
theorem Placed.encodes {source : Nat} {field : Field} {placements : List Placement}
    (placed : Placed tables rules source field placements)
    (inside : field.type.index < before.types.size) {whole : Value} :
    placements.map (fun placement => (placement.field.builtIn.isSome, placement.held whole)) =
      encodeParts before rules field.builtIn.isSome field.type (whole.part source) := by
  obtain ⟨extents, base, external, splits, retypes, rfl⟩ := placed
  obtain ⟨isShape, baseInside⟩ :
      (if rules.inlineArrays then before.shapeOf field.type else ⟨[], field.type⟩ : Shape) =
        ⟨extents, base⟩ ∧ base.index < before.types.size := by
    unfold Splits at splits
    split at splits
    case isTrue inline =>
      obtain ⟨isShape, baseInside, -⟩ := shapeOf_known acyclic extended inside splits
      rw [if_pos inline]
      exact ⟨isShape, baseInside⟩
    case isFalse whole =>
      obtain ⟨rfl, rfl⟩ := splits
      rw [if_neg whole]
      exact ⟨rfl, inside⟩
  simp only [encodeParts, isShape, List.map_map]
  refine List.map_congr_left fun position _ => ?_
  simp only [Function.comp_apply, placement, Placement.held,
    encodePart_eq acyclic extended sound baseInside retypes, Value.read_cons]
  rfl

/-- The external fields hold the encoded parts of all fields. -/
theorem PlacedFrom.encodes {fields : List Field} {source : Nat} {placements : List Placement}
    (placed : PlacedFrom tables rules fields source placements)
    (inside : ∀ field ∈ fields, field.type.index < before.types.size) {values : List Value}
    (count : fields.length = values.length) {done : List Value} (isNext : done.length = source) :
    placements.map (fun placement => (placement.field.builtIn.isSome,
        placement.held (.aggregate (done ++ values)))) =
      (fields.zip values).flatMap fun pair =>
        encodeParts before rules pair.1.builtIn.isSome pair.1.type pair.2 := by
  induction placed generalizing values done with
  | nil => rfl
  | @cons field fields source first rest head _ inductionHypothesis =>
    rw [List.forall_mem_cons] at inside
    cases values with
    | nil => simp at count
    | cons value values =>
      have goesOn := @inductionHypothesis inside.2 values (by simpa using count) (done ++ [value])
        (by simp [isNext])
      rw [List.append_assoc, List.singleton_append] at goesOn
      have here : (Value.aggregate (done ++ value :: values)).part source = value := by
        simp [Value.part, ← isNext]
      rw [List.map_append, head.encodes acyclic extended sound inside.1, goesOn, here,
        List.zip_cons_cons, List.flatMap_cons]

end Encoding

/-! ## Fields that stay as they are -/

/-- Without arrays to take apart, every field has one place. -/
theorem PlacedFrom.whole {fields : List Field} {source : Nat} {placements : List Placement}
    (placed : PlacedFrom tables rules fields source placements)
    (whole : ∀ field ∈ fields, ∀ extents base, Splits tables rules field.type extents base →
      extents = []) :
    placements.map Placement.source = List.range' source fields.length ∧
      ∀ placement ∈ placements, placement.position = [] := by
  induction placed with
  | nil => simp
  | @cons field fields source first rest head _ inductionHypothesis =>
    rw [List.forall_mem_cons] at whole
    obtain ⟨extents, base, external, splits, -, rfl⟩ := head
    obtain rfl := whole.1 _ _ splits
    obtain ⟨sources, positionsNil⟩ := inductionHypothesis whole.2
    constructor
    · simp [positions, placement, sources, List.range'_succ]
    · simpa [positions, placement] using positionsNil

/-- Without arrays to take apart, types to replace or fields to move, the external fields hold the
values themselves. -/
theorem PlacedFrom.held_eq {fields : List Field} {placements : List Placement}
    (placed : PlacedFrom tables rules fields 0 placements)
    (whole : ∀ field ∈ fields, ∀ extents base, Splits tables rules field.type extents base →
      extents = [])
    (sameTypes : ∀ placement ∈ placements, placement.field.type = placement.type)
    (sameOrder : (order rules placements).map Placement.source = placements.map Placement.source)
    {values : List Value} (count : fields.length = values.length) :
    (order rules placements).map (Placement.held (.aggregate values)) = values := by
  obtain ⟨sources, positionsNil⟩ := placed.whole whole
  have stays := order_eq_self (sources ▸ List.nodup_range') sameOrder
  have reads : placements.map (Placement.held (.aggregate values)) =
      (placements.map Placement.source).map (Value.aggregate values).part := by
    rw [List.map_map]
    refine List.map_congr_left fun placement own => ?_
    simp [Placement.held, sameTypes placement own, positionsNil placement own]
  rw [stays, reads, sources, count]
  refine List.ext_getElem (by simp) fun position inside there => ?_
  simp [Value.part, there]

/-! ## The types of the parts -/

/-- The parts that the rules take a value apart to have the type of the parts. -/
theorem Splits.hasValue_read {type base : TypeId} {extents : List Nat}
    (splits : Splits tables rules type extents base) {value : Value}
    (typed : tables.HasValue type value) {position : List Nat}
    (member : position ∈ positions extents) : tables.HasValue base (value.read position) := by
  unfold Splits at splits
  split at splits
  · exact splits.hasValue_read typed member
  · obtain ⟨rfl, rfl⟩ := splits
    obtain rfl : position = [] := by simpa [positions] using member
    exact typed

/-- The fields of a struct have values of their types. -/
abbrev HaveValues (tables : Tables) (fields : List Field) (values : List Value) : Prop :=
  List.Forall₂ (fun field value => tables.HasValue field.type value) fields values

/-- The part that a placement holds has its internal type in the internal struct. -/
theorem Holds.hasValue {fields : List Field} {placement : Placement}
    (holds : Holds tables rules fields placement) {values : List Value}
    (typed : HaveValues tables fields values) : tables.HasValue placement.type
      ((Value.aggregate values).read (placement.source :: placement.position)) := by
  obtain ⟨field, isField, extents, splits, member, -⟩ := holds
  obtain ⟨inside, rfl⟩ := List.getElem?_eq_some_iff.mp isField
  have also : placement.source < values.length := typed.length_eq ▸ inside
  have isPart : (Value.aggregate values).part placement.source = values[placement.source] := by
    simp [Value.part, also]
  rw [Value.read_cons, isPart]
  exact splits.hasValue_read (typed.get inside also) member

/-- And what the placement holds has the type of its field. -/
theorem Holds.hasValue_held (sound : tables.Sound) {fields : List Field} {placement : Placement}
    (holds : Holds tables rules fields placement) {values : List Value}
    (typed : HaveValues tables fields values) :
    tables.HasValue placement.field.type (placement.held (.aggregate values)) := by
  have isPart := holds.hasValue typed
  obtain ⟨-, -, -, -, -, retypes⟩ := holds
  unfold Placement.held
  split
  case isTrue same => rwa [same]
  case isFalse differ =>
    obtain ⟨-, extents, base, wide, shape, wider, wideShape⟩ := retypes.widened differ
    exact shape.hasValue_widen sound wider wideShape isPart

/-! ## Covering both structs -/

section Covering

variable (filled : tables.Sized (0 < ·))

include filled

/-- Copying a part covers it. -/
theorem coveredOnce_copyPaths {targetType valueType : TypeId}
    (ends : targetType ≠ valueType → tables.Ends targetType) :
    tables.CoveredOnce targetType (copyPaths tables targetType valueType) := by
  unfold copyPaths
  split
  case isTrue => exact tables.coveredOnce_whole targetType
  case isFalse differ =>
    have shape := (ends differ).shapeOf_eq
    have elements := shape.coveredOnce (fun empty => Nat.lt_irrefl 0 (shape.sized filled 0 empty))
      (tables.coveredOnce_whole _)
    simpa using elements

/-- Writing the parts of all fields covers the fields. -/
theorem PlacedFrom.covered {fields : List Field} {source : Nat} {placements : List Placement}
    (placed : PlacedFrom tables rules fields source placements) :
    tables.CoveredFrom (fields.map Field.type) source
      (placements.flatMap (Placement.innerPaths tables)) := by
  induction placed with
  | nil => exact tables.coveredFrom_nil _
  | @cons field fields source first rest head _ inductionHypothesis =>
    obtain ⟨extents, base, external, splits, retypes, rfl⟩ := head
    have part : tables.CoveredOnce base (copyPaths tables base external) := by
      refine coveredOnce_copyPaths filled fun differ => ?_
      obtain ⟨-, _, _, -, shape, -⟩ := retypes.widened (Ne.symm differ)
      exact ⟨_, _, shape⟩
    have whole : tables.CoveredOnce field.type ((positions extents).flatMap fun position =>
        (copyPaths tables base external).map (position ++ ·)) := by
      unfold Splits at splits
      split at splits
      · exact splits.coveredOnce (fun empty => Nat.lt_irrefl 0 (splits.sized filled 0 empty)) part
      · obtain ⟨rfl, rfl⟩ := splits
        simpa [positions] using part
    have paths : ((positions extents).map (placement field source base external)).flatMap
        (Placement.innerPaths tables) = ((positions extents).flatMap fun position =>
          (copyPaths tables base external).map (position ++ ·)).map (source :: ·) := by
      simp only [List.flatMap_map, List.map_flatMap, List.map_map]
      rfl
    rw [List.flatMap_append, paths]
    exact .cons whole inductionHypothesis

/-- Writing all fields of the external struct covers them. -/
theorem coveredFrom_outerPaths {placements : List Placement}
    (retypes : ∀ placement ∈ placements,
      Retypes tables rules placement.type placement.field.type) (first : Nat) :
    tables.CoveredFrom (placements.map fun placement => placement.field.type) first
      (placements.mapIdx fun place placement =>
        placement.outerPaths tables (first + place)).flatten := by
  induction placements generalizing first with
  | nil => exact tables.coveredFrom_nil first
  | cons placement placements inductionHypothesis =>
    rw [List.forall_mem_cons] at retypes
    have goesOn := inductionHypothesis retypes.2 (first + 1)
    simp only [List.mapIdx_cons, List.flatten_cons, List.map_cons]
    simp only [Nat.add_assoc, Nat.add_comm 1] at goesOn
    refine .cons (coveredOnce_copyPaths filled fun differ => ?_) goesOn
    obtain ⟨-, _, _, _, -, -, wideShape⟩ := retypes.1.widened differ
    exact ⟨_, _, wideShape⟩

end Covering

end Layout

end ShaderPipeline
