import ShaderPipeline.Layout
import ShaderPipeline.Proofs.TypeCreation

/-!
# Placing the fields of a struct

Where the fields of the internal struct go in the external one. `Widens` relates
a type to the one that holds its truth values as numbers, `Placed` a field to the
external fields that hold its parts. Placing the fields of a struct whose arrays
end succeeds, and adds nothing but the arrays of numbers that it needs.
-/

namespace ShaderPipeline

namespace Ty

/-- Whether truth values are held directly: by a scalar or by the components of a vector. -/
def isTruth : Ty → Bool
  | scalar .bool => true
  | vector component _ => component = .bool
  | _ => false

/-- Whether unsigned numbers are held directly: by a scalar or by the components of a vector. -/
def isUnsigned : Ty → Bool
  | scalar .uint => true
  | vector component _ => component = .uint
  | _ => false

/-- No type holds both truth values and numbers. -/
theorem isUnsigned_of_isTruth (type : Ty) (isTruth : type.isTruth = true) :
    type.isUnsigned = false := by
  cases type with
  | scalar kind => cases kind <;> simp_all [Ty.isTruth, Ty.isUnsigned]
  | vector component size =>
    obtain rfl : component = .bool := by simpa [Ty.isTruth] using isTruth
    rfl
  | _ => rfl

end Ty

/-- The predefined vector of unsigned numbers with two to four components. -/
def TypeId.uintVector (size : Nat) : TypeId := ⟨9 + size⟩

namespace Tables

variable {tables before middle after : Tables} {sizes : Nat → Prop}

/-- The second type takes the place of the first one where truth values are held as numbers. -/
inductive WidensBase (tables : Tables) : TypeId → TypeId → Prop where
  | bool {base : TypeId} (known : tables.types[base.index]? = some (.scalar .bool)) :
      WidensBase tables base .uint
  | vector {base wide : TypeId} {size : Nat}
      (known : tables.types[base.index]? = some (.vector .bool size))
      (wideKnown : tables.types[wide.index]? = some (.vector .uint size)) :
      WidensBase tables base wide

/-- The type that holds truth values as numbers. Any other type stays as it is. -/
def numbersFor (tables : Tables) (base : TypeId) : TypeId :=
  match tables.types[base.index]? with
  | some (.scalar .bool) => .uint
  | some (.vector component size) => if component = .bool then .uintVector size else base
  | _ => base

/-- The second type is the first one with truth values held as numbers. -/
inductive Widens (tables : Tables) : TypeId → TypeId → Prop where
  | same {type base : TypeId} {extents : List Nat} {entry : Ty}
      (shape : tables.HasShape type extents base) (known : tables.types[base.index]? = some entry)
      (plain : entry.isTruth = false) : Widens tables type type
  | widened {type wide base wideBase : TypeId} {extents : List Nat}
      (shape : tables.HasShape type extents base) (wider : tables.WidensBase base wideBase)
      (wideShape : tables.HasShape wide extents wideBase) : Widens tables type wide

/-- An innermost type stays widened while the tables grow. -/
theorem WidensBase.extends {base wide : TypeId} (wider : before.WidensBase base wide)
    (extended : before.Extends after) : after.WidensBase base wide := by
  cases wider with
  | bool known => exact .bool (extended.types known)
  | vector known wideKnown => exact .vector (extended.types known) (extended.types wideKnown)

/-- A type stays widened while the tables grow. -/
theorem Widens.extends {type wide : TypeId} (wider : before.Widens type wide)
    (extended : before.Extends after) : after.Widens type wide := by
  cases wider with
  | same shape known plain => exact .same (shape.extends extended) (extended.types known) plain
  | widened shape base wideShape =>
    exact .widened (shape.extends extended) (base.extends extended) (wideShape.extends extended)

/-- A widened type is known. -/
theorem Widens.index_lt {type wide : TypeId} (wider : tables.Widens type wide) :
    wide.index < tables.types.size := by
  cases wider with
  | same shape => exact shape.index_lt
  | widened _ _ wideShape => exact wideShape.index_lt

/-- What is widened holds truth values. -/
theorem WidensBase.isTruth {base wide : TypeId} (wider : tables.WidensBase base wide) :
    ∃ entry, tables.types[base.index]? = some entry ∧ entry.isTruth = true := by
  cases wider with
  | bool known => exact ⟨_, known, rfl⟩
  | vector known => exact ⟨_, known, by simp [Ty.isTruth]⟩

/-- And it is widened to unsigned numbers. -/
theorem WidensBase.isUnsigned {base wide : TypeId} (wider : tables.WidensBase base wide)
    (sound : tables.Sound) :
    ∃ entry, tables.types[wide.index]? = some entry ∧ entry.isUnsigned = true := by
  cases wider with
  | bool => exact ⟨_, sound.predefined rfl, rfl⟩
  | vector _ wideKnown => exact ⟨_, wideKnown, by simp [Ty.isUnsigned]⟩

/-- So nothing is widened to itself. -/
theorem WidensBase.ne {base wide : TypeId} (wider : tables.WidensBase base wide)
    (sound : tables.Sound) : wide ≠ base := by
  rintro rfl
  obtain ⟨entry, known, isTruth⟩ := wider.isTruth
  obtain ⟨wideEntry, wideKnown, isUnsigned⟩ := wider.isUnsigned sound
  obtain rfl := Option.some.inj (known.symm.trans wideKnown)
  simp [entry.isUnsigned_of_isTruth isTruth] at isUnsigned

/-! ## Adding arrays of numbers -/

/-- The type has one or more arrays over unsigned numbers. -/
def IsNumberArray (tables : Tables) (id : TypeId) : Prop :=
  ∃ size extents base entry, tables.HasShape id (size :: extents) base ∧
    tables.types[base.index]? = some entry ∧ entry.isUnsigned = true

/-- The tables after have more arrays of unsigned numbers and nothing else. -/
structure GrowsArrays (sizes : Nat → Prop) (before after : Tables) : Prop
    extends Grows sizes before after where
  sameEnvs : after.textureEnvs = before.textureEnvs
  arrays : ∀ {index : Nat}, before.types.size ≤ index → index < after.types.size →
    after.IsNumberArray ⟨index⟩

/-- An array of numbers stays one while the tables grow. -/
theorem IsNumberArray.extends {id : TypeId} (numbers : before.IsNumberArray id)
    (extended : before.Extends after) : after.IsNumberArray id := by
  obtain ⟨size, extents, base, entry, shape, known, isUnsigned⟩ := numbers
  exact ⟨size, extents, base, entry, shape.extends extended, extended.types known, isUnsigned⟩

/-- Tables that stay as they are have no new type. -/
theorem GrowsArrays.refl (sizes : Nat → Prop) (tables : Tables) :
    GrowsArrays sizes tables tables where
  toGrows := .refl sizes tables
  sameEnvs := rfl
  arrays new inside := absurd inside (Nat.not_lt.mpr new)

/-- If two steps only make arrays of numbers, so do both together. -/
theorem GrowsArrays.trans (first : GrowsArrays sizes before middle)
    (second : GrowsArrays sizes middle after) : GrowsArrays sizes before after where
  toGrows := first.toGrows.trans second.toGrows
  sameEnvs := second.sameEnvs.trans first.sameEnvs
  arrays {index} new inside := by
    by_cases inMiddle : index < middle.types.size
    · exact (first.arrays new inMiddle).extends second.toExtends
    · exact second.arrays (Nat.not_lt.mp inMiddle) inside

/-- Sound tables stay sound while arrays of numbers are made. -/
theorem GrowsArrays.sound (grows : GrowsArrays sizes before after) (sound : before.Sound) :
    after.Sound :=
  grows.toGrows.sound sound fun member => .inl (grows.sameEnvs ▸ member)

/-- No pointers are added. -/
theorem GrowsArrays.pointers (grows : GrowsArrays sizes before after) {index : Nat}
    {pointee : TypeId} (there : after.types[index]? = some (.pointer pointee)) :
    before.types[index]? = some (.pointer pointee) := by
  rcases grows.toGrows.cases there with old | ⟨new, -⟩
  · exact old
  · obtain ⟨_, _, _, _, shape, -⟩ := grows.arrays new (Array.getElem?_eq_some_iff.mp there).1
    cases shape with
    | array known => cases there.symm.trans known

/-- One more type that is no pointer adds no pointer. -/
theorem push_pointers {types : Array Ty} {type : Ty} (other : ∀ pointee, type ≠ .pointer pointee)
    {index : Nat} {pointee : TypeId} (there : (types.push type)[index]? = some (.pointer pointee)) :
    types[index]? = some (.pointer pointee) := by
  rw [Array.getElem?_push] at there
  split at there
  · exact absurd (Option.some.inj there) (other pointee)
  · exact there

/-- Making an array type with some extents makes arrays over the same type. -/
theorem arrayOver_arrays {base : TypeId} {entry : Ty} {extents : List Nat}
    (known : tables.types[base.index]? = some entry) (plain : entry.isArray = false) {index : Nat}
    (new : tables.types.size ≤ index)
    (inside : index < (tables.arrayOver extents base).2.types.size) :
    ∃ size inner, (tables.arrayOver extents base).2.HasShape ⟨index⟩ (size :: inner) base := by
  induction extents with
  | nil => exact absurd inside (Nat.not_lt.mpr new)
  | cons size extents inductionHypothesis =>
    obtain ⟨element, middle, innerOk, shape, -, -⟩ :=
      @arrayOver_run tables (fun _ => True) base entry extents known plain fun _ _ => trivial
    rw [innerOk] at inductionHypothesis
    simp only [arrayOver, innerOk] at inside ⊢
    by_cases inMiddle : index < middle.types.size
    · obtain ⟨size, inner, earlier⟩ := inductionHypothesis inMiddle
      exact ⟨size, inner, earlier.extends (intern_registers _).toExtends⟩
    · -- Only the outermost array is left, if it was not there before.
      unfold intern at inside ⊢
      split at inside
      · exact absurd inside inMiddle
      case h_2 unknown =>
        have last : index = middle.types.size := by
          simp only [addShared, Array.size_push] at inside
          omega
        subst last
        exact ⟨size, extents, .array (addShared_types unknown)
          (shape.extends (addShared_extends unknown))⟩

/-- The array types over unsigned numbers that are added have the extents that were asked for. -/
theorem arrayOver_grows {base : TypeId} {entry : Ty} {extents : List Nat}
    (known : tables.types[base.index]? = some entry) (isUnsigned : entry.isUnsigned = true)
    (sized : ∀ extent ∈ extents, sizes extent) :
    ∃ id after, tables.arrayOver extents base = (id, after) ∧ after.HasShape id extents base ∧
      GrowsArrays sizes tables after := by
  have plain : entry.isArray = false := by
    cases entry <;> simp_all [Ty.isUnsigned, Ty.isArray]
  obtain ⟨id, after, made, shape, grows, sameEnvs⟩ := arrayOver_run known plain sized
  refine ⟨id, after, made, shape, grows, sameEnvs, fun new inside => ?_⟩
  obtain ⟨size, inner, array⟩ := arrayOver_arrays known plain new (by rwa [made])
  rw [made] at array
  exact ⟨size, inner, base, entry, array, grows.types known, isUnsigned⟩

/-! ## Widening -/

/-- The numeric vector of a size that vectors have. -/
theorem Sound.uintVector (sound : tables.Sound) {size : Nat} (least : 2 ≤ size) (most : size ≤ 4) :
    vectorType .uint size = .ok (.uintVector size) ∧
      tables.types[(TypeId.uintVector size).index]? = some (.vector .uint size) := by
  have known : predefinedTypes[9 + size]? = some (.vector .uint size) := by
    obtain rfl | rfl | rfl : size = 2 ∨ size = 3 ∨ size = 4 := by omega
    all_goals rfl
  refine ⟨?_, sound.predefined known⟩
  have place : 11 + (size - 2) = 9 + size := by omega
  simp [vectorType, ensure, least, most, TypeId.uintVector, place]

/-- A type without truth values stays as it is. -/
theorem numbersFor_eq_self {base : TypeId} {entry : Ty}
    (known : tables.types[base.index]? = some entry) (plain : entry.isTruth = false) :
    tables.numbersFor base = base := by
  unfold numbersFor
  rw [known]
  cases entry with
  | scalar kind => cases kind <;> simp_all [Ty.isTruth]
  | vector component size => simp_all [Ty.isTruth]
  | _ => rfl

/-- A type of truth values is widened to numbers. -/
theorem Sound.widensBase (sound : tables.Sound) {base : TypeId} {entry : Ty}
    (known : tables.types[base.index]? = some entry) (isTruth : entry.isTruth = true) :
    tables.WidensBase base (tables.numbersFor base) := by
  unfold numbersFor
  rw [known]
  cases entry with
  | scalar kind =>
    cases kind with
    | bool => exact .bool known
    | void | float | int | uint => simp [Ty.isTruth] at isTruth
  | vector component size =>
    obtain rfl : component = .bool := by simpa [Ty.isTruth] using isTruth
    obtain ⟨least, most⟩ := sound.vectors known
    simpa using WidensBase.vector known (sound.uintVector least most).2
  | _ => simp [Ty.isTruth] at isTruth

/-- A type whose arrays end can be widened. Without truth values it stays as it is, and with truth
values it becomes the array over numbers with the same extents. -/
theorem widenBools_eq (sound : tables.Sound) {type base : TypeId} {extents : List Nat} {entry : Ty}
    (shape : tables.HasShape type extents base) (known : tables.types[base.index]? = some entry) :
    tables.widenBools type = .ok (if entry.isTruth then
      tables.arrayOver extents (tables.numbersFor base) else (type, tables)) := by
  have deep := Nat.le_of_lt shape.length_lt
  have isShape : tables.shapeOf type = ⟨extents, base⟩ := shape.shapeOf_eq deep
  have isBase := shape.baseOf_eq known deep
  rw [isShape] at isBase
  simp only [widenBools, isShape, isBase, numbersFor, known, Outcome.ok_bind]
  cases entry with
  | scalar kind => cases kind <;> rfl
  | vector component size =>
    by_cases isBool : component = .bool
    · obtain ⟨least, most⟩ := sound.vectors known
      simp [isBool, Ty.isTruth, (sound.uintVector least most).1]
    · simp [isBool, Ty.isTruth]
  | _ => rfl

/-- What is widened ends. -/
theorem widenBools_ends {type wide : TypeId} (made : tables.widenBools type = .ok (wide, after)) :
    tables.Ends type := by
  simp only [widenBools, Outcome.bind_eq_ok_iff] at made
  obtain ⟨entry, ends, -⟩ := made
  exact ⟨_, _, (hasShape_of_baseOf ends).1⟩

/-- Every type that is not endless can be widened. -/
theorem widenBools_ok (sound : tables.Sound) {type : TypeId} (ends : tables.Ends type) :
    ∃ made, tables.widenBools type = .ok made := by
  obtain ⟨extents, base, shape⟩ := ends
  obtain ⟨entry, known, -⟩ := shape.base_known
  exact ⟨_, widenBools_eq sound shape known⟩

/-- Widening a type adds the arrays over numbers that it needs. -/
theorem widenBools_grows (sound : tables.Sound) (sized : tables.Sized sizes) {type wide : TypeId}
    (made : tables.widenBools type = .ok (wide, after)) :
    GrowsArrays sizes tables after ∧ after.Widens type wide ∧ (wide = type → after = tables) := by
  obtain ⟨extents, base, shape⟩ := widenBools_ends made
  obtain ⟨entry, known, -⟩ := shape.base_known
  rw [widenBools_eq sound shape known] at made
  by_cases isTruth : entry.isTruth = true
  · have wider := sound.widensBase known isTruth
    obtain ⟨wideEntry, wideKnown, isUnsigned⟩ := wider.isUnsigned sound
    obtain ⟨id, grown, arrayOk, wideShape, grows⟩ :=
      arrayOver_grows wideKnown isUnsigned (shape.sized sized)
    rw [if_pos isTruth, arrayOk] at made
    obtain ⟨rfl, rfl⟩ := Prod.mk.inj (Except.ok.inj made)
    refine ⟨grows, .widened (shape.extends grows.toExtends) (wider.extends grows.toExtends)
      wideShape, ?_⟩
    rintro rfl
    obtain ⟨-, sameBase⟩ := (shape.extends grows.toExtends).unique wideShape
    exact absurd sameBase (wider.ne sound)
  · rw [if_neg isTruth] at made
    obtain ⟨rfl, rfl⟩ := Prod.mk.inj (Except.ok.inj made)
    exact ⟨.refl sizes tables, .same shape known (by simpa using isTruth), fun _ => rfl⟩

end Tables

/-- All extents are extents. -/
theorem Tables.sized_true (tables : Tables) : tables.Sized fun _ => True := fun _ => trivial

/-- The extents of all arrays are as wanted. -/
theorem Tables.Sized.shapeOf {tables : Tables} {sizes : Nat → Prop} (sized : tables.Sized sizes)
    (type : TypeId) : ∀ extent ∈ (tables.shapeOf type).extents, sizes extent := by
  have within (depth : Nat) (type : TypeId) :
      ∀ extent ∈ (tables.shapeWithin depth type).extents, sizes extent := by
    induction depth generalizing type with
    | zero => simp [shapeWithin]
    | succ depth inductionHypothesis =>
      rw [shapeWithin]
      split
      case h_1 known => exact List.forall_mem_cons.mpr ⟨sized known, inductionHypothesis _⟩
      case h_2 => simp
  exact within _ type

/-- An array without an empty extent has elements. -/
theorem positions_ne_nil {extents : List Nat} (filled : 0 ∉ extents) : positions extents ≠ [] := by
  induction extents with
  | nil => simp [positions]
  | cons size inner inductionHypothesis =>
    rw [List.mem_cons, not_or] at filled
    have inside := inductionHypothesis filled.2
    obtain ⟨size, rfl⟩ : ∃ less, size = less + 1 := ⟨size - 1, by omega⟩
    simp [positions, List.range_succ_eq_map, inside]

/-- An array with an empty extent has none. -/
theorem positions_eq_nil {extents : List Nat} (empty : 0 ∈ extents) : positions extents = [] := by
  induction extents with
  | nil => simp at empty
  | cons size inner inductionHypothesis =>
    rcases List.mem_cons.mp empty with rfl | inside
    · rfl
    · simp [positions, inductionHypothesis inside]

namespace Layout

variable {tables before middle after : Tables} {sizes : Nat → Prop} {rules : LayoutRules}

/-! ## The parts of a field -/

/-- The array structure that the rules take apart in a field, and the type of its parts. -/
def Splits (tables : Tables) (rules : LayoutRules) (type : TypeId) (extents : List Nat)
    (base : TypeId) : Prop :=
  if rules.inlineArrays then tables.HasShape type extents base else extents = [] ∧ base = type

/-- The type of a part in the external struct. -/
def Retypes (tables : Tables) (rules : LayoutRules) (type external : TypeId) : Prop :=
  if rules.widenBools then tables.Widens type external else external = type

/-- A type is split into the same parts while the tables grow. -/
theorem Splits.extends {type base : TypeId} {extents : List Nat}
    (splits : Splits before rules type extents base) (extended : before.Extends after) :
    Splits after rules type extents base := by
  unfold Splits at splits ⊢
  split
  case isTrue inline =>
    rw [if_pos inline] at splits
    exact splits.extends extended
  case isFalse whole => rwa [if_neg whole] at splits

/-- The type of a part stays what it is while the tables grow. -/
theorem Retypes.extends {type external : TypeId} (retypes : Retypes before rules type external)
    (extended : before.Extends after) : Retypes after rules type external := by
  unfold Retypes at retypes ⊢
  split
  case isTrue widen =>
    rw [if_pos widen] at retypes
    exact retypes.extends extended
  case isFalse keep => rwa [if_neg keep] at retypes

/-- The parts of a known type are known. -/
theorem Splits.index_lt {type base : TypeId} {extents : List Nat}
    (splits : Splits tables rules type extents base) (inside : type.index < tables.types.size) :
    base.index < tables.types.size := by
  unfold Splits at splits
  split at splits
  · obtain ⟨entry, known, -⟩ := splits.base_known
    exact Tables.index_lt_of_getElem? known
  · rwa [splits.2]

/-- The type of a part is known if the original type is. -/
theorem Retypes.index_lt {type external : TypeId} (retypes : Retypes tables rules type external)
    (inside : type.index < tables.types.size) : external.index < tables.types.size := by
  unfold Retypes at retypes
  split at retypes
  · exact retypes.index_lt
  · rwa [retypes]

/-- A part that gets another type has truth values under its arrays, and gets numbers instead. -/
theorem Retypes.widened {type external : TypeId} (retypes : Retypes tables rules type external)
    (differ : external ≠ type) : rules.widenBools = true ∧ ∃ extents base wide,
      tables.HasShape type extents base ∧ tables.WidensBase base wide ∧
        tables.HasShape external extents wide := by
  unfold Retypes at retypes
  split at retypes
  case isFalse => exact absurd retypes differ
  case isTrue widens =>
    cases retypes with
    | same => exact absurd rfl differ
    | widened shape wider wideShape => exact ⟨widens, _, _, _, shape, wider, wideShape⟩

/-- The extents that a type is split along are sizes of its arrays. -/
theorem Splits.sized {type base : TypeId} {extents : List Nat}
    (splits : Splits tables rules type extents base) (sized : tables.Sized sizes) :
    ∀ extent ∈ extents, sizes extent := by
  unfold Splits at splits
  split at splits
  · exact splits.sized sized
  · simp [splits.1]

/-- Finding the type of a part at most makes arrays of numbers, and nothing if the type stays. -/
theorem partType_grows (sound : tables.Sound) (sized : tables.Sized sizes) {type external : TypeId}
    (made : partType tables rules type = .ok (external, after)) :
    Tables.GrowsArrays sizes tables after ∧ Retypes after rules type external ∧
      (external = type → after = tables) := by
  unfold partType at made
  unfold Retypes
  split at made
  case isTrue wide =>
    rw [if_pos wide]
    exact Tables.widenBools_grows sound sized made
  case isFalse keep =>
    rw [if_neg keep]
    obtain ⟨rfl, rfl⟩ := Prod.mk.inj (Except.ok.inj made)
    exact ⟨.refl sizes tables, rfl, fun _ => rfl⟩

/-- Every type that is not endless has a type for its parts. -/
theorem partType_ok (rules : LayoutRules) (sound : tables.Sound) {type : TypeId}
    (ends : tables.Ends type) : ∃ made, partType tables rules type = .ok made := by
  unfold partType
  split
  · exact Tables.widenBools_ok sound ends
  · exact ⟨_, rfl⟩

/-! ## The places of the parts -/

/-- The external field that holds one part of a field. -/
def placement (field : Field) (source : Nat) (base external : TypeId) (position : List Nat) :
    Placement where
  field := { field with name := partName field.name position, type := external }
  source := source
  position := position
  type := base

/-- The external fields that hold the parts of a field, in row-major order. -/
def Placed (tables : Tables) (rules : LayoutRules) (source : Nat) (field : Field)
    (placements : List Placement) : Prop :=
  ∃ extents base external, Splits tables rules field.type extents base ∧
    Retypes tables rules base external ∧
    placements = (positions extents).map (placement field source base external)

/-- The external fields that hold the parts of several fields, in order. -/
inductive PlacedFrom (tables : Tables) (rules : LayoutRules) :
    List Field → Nat → List Placement → Prop where
  | nil {source : Nat} : PlacedFrom tables rules [] source []
  | cons {field : Field} {fields : List Field} {source : Nat} {first rest : List Placement}
      (head : Placed tables rules source field first)
      (tail : PlacedFrom tables rules fields (source + 1) rest) :
      PlacedFrom tables rules (field :: fields) source (first ++ rest)

/-- The placement holds a part of a field. -/
def HoldsPart (tables : Tables) (rules : LayoutRules) (field : Field) (placement : Placement) :
    Prop :=
  ∃ extents, Splits tables rules field.type extents placement.type ∧
    placement.position ∈ positions extents ∧
    Retypes tables rules placement.type placement.field.type

/-- The placement holds a part of one of the fields from the one at `source` on. -/
def HoldsFrom (tables : Tables) (rules : LayoutRules) (fields : List Field) (source : Nat)
    (placement : Placement) : Prop :=
  ∃ offset field, placement.source = source + offset ∧ fields[offset]? = some field ∧
    HoldsPart tables rules field placement

/-- The placement holds a part of the field at its source. -/
def Holds (tables : Tables) (rules : LayoutRules) (fields : List Field) (placement : Placement) :
    Prop :=
  ∃ field, fields[placement.source]? = some field ∧ HoldsPart tables rules field placement

/-- A field stays placed while the tables grow. -/
theorem Placed.extends {source : Nat} {field : Field} {placements : List Placement}
    (placed : Placed before rules source field placements) (extended : before.Extends after) :
    Placed after rules source field placements := by
  obtain ⟨extents, base, external, splits, retypes, same⟩ := placed
  exact ⟨extents, base, external, splits.extends extended, retypes.extends extended, same⟩

/-- The fields of a struct stay placed while the tables grow. -/
theorem PlacedFrom.extends {source : Nat} {fields : List Field} {placements : List Placement}
    (placed : PlacedFrom before rules fields source placements) (extended : before.Extends after) :
    PlacedFrom after rules fields source placements := by
  induction placed with
  | nil => exact .nil
  | cons head _ inductionHypothesis => exact .cons (head.extends extended) inductionHypothesis

/-- A placement holds the same part of its field while the tables grow. -/
theorem HoldsPart.extends {field : Field} {placement : Placement}
    (holds : HoldsPart before rules field placement) (extended : before.Extends after) :
    HoldsPart after rules field placement := by
  obtain ⟨extents, splits, own, retypes⟩ := holds
  exact ⟨extents, splits.extends extended, own, retypes.extends extended⟩

/-- A part of the first field is a part of one of the fields. -/
theorem HoldsFrom.head {field : Field} {fields : List Field} {source : Nat} {placement : Placement}
    (sameSource : placement.source = source) (holds : HoldsPart tables rules field placement) :
    HoldsFrom tables rules (field :: fields) source placement :=
  ⟨0, field, sameSource, rfl, holds⟩

/-- A part of a later field is one of all fields, counted from one field before. -/
theorem HoldsFrom.tail {fields : List Field} {source : Nat} {placement : Placement}
    (holds : HoldsFrom tables rules fields (source + 1) placement) (field : Field) :
    HoldsFrom tables rules (field :: fields) source placement := by
  obtain ⟨offset, other, sameSource, there, holds⟩ := holds
  exact ⟨offset + 1, other, by omega, there, holds⟩

/-- Counted from the first field, the source of a placement is the position of its field. -/
theorem HoldsFrom.holds {fields : List Field} {placement : Placement}
    (holds : HoldsFrom tables rules fields 0 placement) : Holds tables rules fields placement := by
  obtain ⟨offset, field, sameSource, there, holds⟩ := holds
  rw [Nat.zero_add] at sameSource
  exact ⟨field, sameSource ▸ there, holds⟩

/-- A placement holds a part of its struct while the tables grow. -/
theorem Holds.extends {fields : List Field} {placement : Placement}
    (holds : Holds before rules fields placement) (extended : before.Extends after) :
    Holds after rules fields placement := by
  obtain ⟨field, there, holds⟩ := holds
  exact ⟨field, there, holds.extends extended⟩

/-- What holds a part of a known type has a known type. -/
theorem Holds.index_lt {fields : List Field} {placement : Placement}
    (holds : Holds tables rules fields placement)
    (inside : ∀ field ∈ fields, field.type.index < tables.types.size) :
    placement.field.type.index < tables.types.size := by
  obtain ⟨field, there, extents, splits, -, retypes⟩ := holds
  exact retypes.index_lt (splits.index_lt (inside field (List.mem_of_getElem? there)))

/-- Every placement of a field holds a part of that field. -/
theorem Placed.holdsPart {source : Nat} {field : Field} {placements : List Placement}
    (placed : Placed tables rules source field placements) {member : Placement}
    (inside : member ∈ placements) :
    member.source = source ∧ HoldsPart tables rules field member := by
  obtain ⟨extents, base, external, splits, retypes, rfl⟩ := placed
  obtain ⟨position, own, rfl⟩ := List.mem_map.mp inside
  exact ⟨rfl, extents, splits, own, retypes⟩

/-- Every placement of a struct holds a part of the field at its source. -/
theorem PlacedFrom.holdsFrom {fields : List Field} {source : Nat} {placements : List Placement}
    (placed : PlacedFrom tables rules fields source placements) :
    ∀ placement ∈ placements, HoldsFrom tables rules fields source placement := by
  induction placed with
  | nil => simp
  | @cons field fields source first rest head _ inductionHypothesis =>
    intro placement member
    rcases List.mem_append.mp member with here | later
    · obtain ⟨sameSource, holds⟩ := head.holdsPart here
      exact .head sameSource holds
    · exact (inductionHypothesis placement later).tail field

/-- So every placement that is made for a struct holds a part of it. -/
theorem PlacedFrom.holds {fields : List Field} {placements : List Placement}
    (placed : PlacedFrom tables rules fields 0 placements) :
    ∀ placement ∈ placements, Holds tables rules fields placement :=
  fun placement member => (placed.holdsFrom placement member).holds

/-! ## Placing -/

/-- What is taken apart in a type whose arrays end. -/
theorem splitShape_ok (rules : LayoutRules) {type : TypeId} (ends : tables.Ends type) :
    ∃ extents base, splitShape tables rules type = .ok ⟨extents, base⟩ ∧ tables.Ends base := by
  unfold splitShape
  split
  case isTrue =>
    obtain ⟨extents, base, shape⟩ := ends
    obtain ⟨entry, known, plain⟩ := shape.base_known
    have deep := Nat.le_of_lt shape.length_lt
    have isBase := shape.baseOf_eq known deep
    have isShape : tables.shapeOf type = ⟨extents, base⟩ := shape.shapeOf_eq deep
    rw [isShape] at isBase
    refine ⟨extents, base, ?_, [], base, .base known plain⟩
    by_cases empty : 0 ∈ extents
    · simp [isShape, empty]
    · simp [isShape, empty, isBase]
  case isFalse => exact ⟨[], type, rfl, ends⟩

/-- An array without elements has no parts, and any other field is taken apart. -/
theorem splitShape_inv {type : TypeId} {shape : Shape}
    (made : splitShape tables rules type = .ok shape) :
    (rules.inlineArrays = true ∧ shape = tables.shapeOf type ∧ 0 ∈ shape.extents) ∨
      (Splits tables rules type shape.extents shape.base ∧ 0 ∉ shape.extents) := by
  unfold splitShape at made
  unfold Splits
  split at made
  case isTrue inline =>
    dsimp only at made
    rw [if_pos inline]
    by_cases empty : 0 ∈ (tables.shapeOf type).extents
    · obtain rfl : _ = shape := by simpa [empty] using made
      exact .inl ⟨inline, rfl, empty⟩
    · obtain ⟨entry, ends, rfl⟩ : ∃ entry, tables.baseOf (tables.shapeOf type) = .ok entry ∧
          tables.shapeOf type = shape := by simpa [empty] using made
      exact .inr ⟨(Tables.hasShape_of_baseOf ends).1, empty⟩
  case isFalse whole =>
    obtain rfl := Except.ok.inj made
    rw [if_neg whole]
    exact .inr ⟨⟨rfl, rfl⟩, List.not_mem_nil⟩

/-- A field over an array without elements has no place. Any other field is taken apart, and the
type of the parts is made. -/
theorem placeField_inv {source : Nat} {field : Field} {placements : List Placement}
    (made : placeField tables rules source field = .ok (placements, after)) :
    (rules.inlineArrays = true ∧ 0 ∈ (tables.shapeOf field.type).extents ∧ placements = [] ∧
        after = tables) ∨
      ∃ extents base external, Splits tables rules field.type extents base ∧ 0 ∉ extents ∧
        partType tables rules base = .ok (external, after) ∧
        placements = (positions extents).map (placement field source base external) := by
  simp only [placeField, Outcome.bind_eq_ok_iff] at made
  obtain ⟨shape, shapeOk, made⟩ := made
  rcases splitShape_inv shapeOk with ⟨inline, rfl, empty⟩ | ⟨splits, filled⟩
  · obtain ⟨rfl, rfl⟩ : [] = placements ∧ tables = after := by simpa [empty] using made
    exact .inl ⟨inline, empty, rfl, rfl⟩
  · rw [if_neg (by simpa using filled)] at made
    simp only [Outcome.bind_eq_ok_iff] at made
    obtain ⟨⟨external, grown⟩, typed, made⟩ := made
    obtain ⟨rfl, rfl⟩ := Prod.mk.inj (Except.ok.inj made)
    exact .inr ⟨shape.extents, shape.base, external, splits, filled, typed, rfl⟩

/-- Placing a field adds arrays of numbers at most. Unless it has no parts, it is placed. -/
theorem placeField_grows (sound : tables.Sound) (sized : tables.Sized sizes) {source : Nat}
    {field : Field} {placements : List Placement}
    (made : placeField tables rules source field = .ok (placements, after)) :
    Tables.GrowsArrays sizes tables after ∧
      (placements = [] ∨ Placed after rules source field placements) := by
  rcases placeField_inv made with
    ⟨-, -, rfl, rfl⟩ | ⟨extents, base, external, splits, -, typed, rfl⟩
  · exact ⟨.refl sizes _, .inl rfl⟩
  · obtain ⟨grows, retypes, -⟩ := partType_grows sound sized typed
    exact ⟨grows, .inr ⟨extents, base, external, splits.extends grows.toExtends, retypes, rfl⟩⟩

/-- Fields are placed one after the other. -/
theorem placeFields_cons_inv {source : Nat} {field : Field} {fields : List Field}
    {placements : List Placement}
    (made : placeFields tables rules (field :: fields) source = .ok (placements, after)) :
    ∃ first middle rest, placeField tables rules source field = .ok (first, middle) ∧
      placeFields middle rules fields (source + 1) = .ok (rest, after) ∧
      placements = first ++ rest := by
  simp only [placeFields, Outcome.bind_eq_ok_iff] at made
  obtain ⟨⟨first, middle⟩, firstOk, ⟨rest, last⟩, restOk, made⟩ := made
  obtain ⟨rfl, rfl⟩ := Prod.mk.inj (Except.ok.inj made)
  exact ⟨first, middle, rest, firstOk, restOk, rfl⟩

/-- Placing several fields adds arrays of numbers at most, and every placement holds a part of one
of them. -/
theorem placeFields_grows (sound : tables.Sound) (sized : tables.Sized sizes) {source : Nat}
    {fields : List Field} {placements : List Placement}
    (made : placeFields tables rules fields source = .ok (placements, after)) :
    Tables.GrowsArrays sizes tables after ∧
      ∀ placement ∈ placements, HoldsFrom after rules fields source placement := by
  induction fields generalizing tables source placements with
  | nil =>
    obtain ⟨rfl, rfl⟩ := Prod.mk.inj (Except.ok.inj made)
    exact ⟨.refl sizes _, by simp⟩
  | cons field fields inductionHypothesis =>
    obtain ⟨first, middle, rest, firstOk, restOk, rfl⟩ := placeFields_cons_inv made
    obtain ⟨toMiddle, placed⟩ := placeField_grows sound sized firstOk
    obtain ⟨toAfter, holdsRest⟩ :=
      inductionHypothesis (toMiddle.sound sound) (toMiddle.toGrows.sized sized) restOk
    refine ⟨toMiddle.trans toAfter, fun placement member => ?_⟩
    rcases List.mem_append.mp member with here | later
    · rcases placed with rfl | placed
      · simp at here
      · obtain ⟨sameSource, holds⟩ := placed.holdsPart here
        exact .head sameSource (holds.extends toAfter.toExtends)
    · exact (holdsRest placement later).tail field

/-- Where every array has elements, every field is placed, in at least one part. -/
theorem placeField_placed (sound : tables.Sound) (sized : tables.Sized sizes)
    (filled : ∀ size, sizes size → 0 < size) {source : Nat} {field : Field}
    {placements : List Placement}
    (made : placeField tables rules source field = .ok (placements, after)) :
    Placed after rules source field placements ∧ placements ≠ [] := by
  rcases placeField_inv made with
    ⟨-, empty, -, -⟩ | ⟨extents, base, external, splits, someParts, typed, rfl⟩
  · exact absurd (filled 0 (sized.shapeOf field.type 0 empty)) (Nat.lt_irrefl 0)
  · obtain ⟨grows, retypes, -⟩ := partType_grows sound sized typed
    refine ⟨⟨extents, base, external, splits.extends grows.toExtends, retypes, rfl⟩, ?_⟩
    simpa using positions_ne_nil someParts

/-- What is placed for the fields of a struct is all their parts in order, and no struct with fields
comes out empty. -/
theorem placeFields_placed (sound : tables.Sound) (sized : tables.Sized sizes)
    (filled : ∀ size, sizes size → 0 < size) {source : Nat} {fields : List Field}
    {placements : List Placement}
    (made : placeFields tables rules fields source = .ok (placements, after)) :
    PlacedFrom after rules fields source placements ∧ (fields ≠ [] → placements ≠ []) := by
  induction fields generalizing tables source placements with
  | nil =>
    obtain ⟨rfl, rfl⟩ := Prod.mk.inj (Except.ok.inj made)
    exact ⟨.nil, by simp⟩
  | cons field fields inductionHypothesis =>
    obtain ⟨first, middle, rest, firstOk, restOk, rfl⟩ := placeFields_cons_inv made
    obtain ⟨toMiddle, -⟩ := placeField_grows sound sized firstOk
    have middleSound := toMiddle.sound sound
    have middleSized : middle.Sized sizes := toMiddle.toGrows.sized sized
    obtain ⟨placed, someParts⟩ := placeField_placed sound sized filled firstOk
    obtain ⟨placedRest, -⟩ := inductionHypothesis middleSound middleSized restOk
    obtain ⟨toAfter, -⟩ := placeFields_grows middleSound middleSized restOk
    exact ⟨.cons (placed.extends toAfter.toExtends) placedRest, by simp [someParts]⟩

/-- Fields whose arrays end can be placed. -/
theorem placeField_ok (rules : LayoutRules) (sound : tables.Sound) {field : Field}
    (ends : tables.Ends field.type) (source : Nat) :
    ∃ placements after, placeField tables rules source field = .ok (placements, after) := by
  obtain ⟨extents, base, shapeOk, baseEnds⟩ := splitShape_ok rules ends
  obtain ⟨⟨external, after⟩, typed⟩ := partType_ok rules sound baseEnds
  simp only [placeField, shapeOk, typed, Outcome.ok_bind]
  split
  · exact ⟨_, _, rfl⟩
  · exact ⟨_, _, rfl⟩

/-- The fields of a struct can be placed if none of their types is endless. -/
theorem placeFields_ok (rules : LayoutRules) (sound : tables.Sound) {fields : List Field}
    (ends : ∀ field ∈ fields, tables.Ends field.type) (source : Nat) :
    ∃ placements after, placeFields tables rules fields source = .ok (placements, after) := by
  induction fields generalizing tables source with
  | nil => exact ⟨[], tables, rfl⟩
  | cons field fields inductionHypothesis =>
    rw [List.forall_mem_cons] at ends
    obtain ⟨first, middle, firstOk⟩ := placeField_ok rules sound ends.1 source
    obtain ⟨toMiddle, -⟩ := placeField_grows sound tables.sized_true firstOk
    obtain ⟨rest, after, restOk⟩ := inductionHypothesis (toMiddle.sound sound)
      (fun other member => (ends.2 other member).extends toMiddle.toExtends) (source + 1)
    exact ⟨first ++ rest, after, by simp [placeFields, firstOk, restOk]⟩

/-- Moving built-ins ahead keeps the external fields. -/
theorem order_perm (rules : LayoutRules) (placements : List Placement) :
    (order rules placements).Perm placements := by
  unfold order
  split
  · rw [List.partition_eq_filter_filter]
    exact List.filter_append_perm _ _
  · rfl

/-- Ordering the placements neither adds one nor drops one. -/
theorem mem_order {placements : List Placement} {member : Placement} :
    member ∈ order rules placements ↔ member ∈ placements :=
  (order_perm rules placements).mem_iff

/-- Where no field has another place, the parts stay in order. -/
theorem order_eq_self {placements : List Placement}
    (once : (placements.map Placement.source).Nodup)
    (same : (order rules placements).map Placement.source = placements.map Placement.source) :
    order rules placements = placements := by
  rw [← List.forall₂_eq_eq_eq, List.forall₂_map_left_iff, List.forall₂_map_right_iff,
    List.forall₂_iff_get] at same
  rw [← List.forall₂_eq_eq_eq, List.forall₂_iff_get]
  refine ⟨same.1, fun place inside there => ?_⟩
  exact List.inj_on_of_nodup_map once (mem_order.mp (List.get_mem _ _)) (List.get_mem _ _)
    (same.2 place inside there)

end Layout

end ShaderPipeline
