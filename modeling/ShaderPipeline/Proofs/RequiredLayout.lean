import Mathlib.Data.Fintype.Basic
import Mathlib.Data.Fintype.Card
import Mathlib.Data.Fintype.EquivFin
import ShaderPipeline.Proofs.InvariantFields
import ShaderPipeline.Proofs.Session

/-!
# The layout that the rules require

`Layout.required` lists the fields that the external layout of a struct has to
have, told from the fields of the struct and the rules alone. A bridge is made just
in case this list differs from the fields of the struct, and the fields of the
external struct are then those of the list. What else is made are arrays of
numbers, the parameters of the conversion function and that function.
-/

namespace ShaderPipeline

namespace Tables

variable {tables before after : Tables}

/-! ## Types without cycles -/

/-- The second type is a part of the first. -/
def Contains (tables : Tables) (whole part : TypeId) : Prop :=
  ∃ type, tables.types[whole.index]? = some type ∧ part ∈ type.parts

/-- Every type is made of known types, and no type contains itself at any depth. A type may be made
of later ones. -/
structure Founded (tables : Tables) : Prop where
  known : ∀ {whole part : TypeId}, tables.Contains whole part → part.index < tables.types.size
  acyclic : ∀ id, ¬ Relation.TransGen tables.Contains id id

/-- Going from types to their parts comes to an end, since there are finitely many types. -/
theorem Founded.wellFounded (founded : tables.Founded) :
    WellFounded fun part whole : Fin tables.types.size => tables.Contains ⟨whole⟩ ⟨part⟩ := by
  let within (part whole : Fin tables.types.size) : Prop :=
    Relation.TransGen tables.Contains ⟨whole⟩ ⟨part⟩
  have transitive : IsTrans _ within := ⟨fun _ _ _ inner outer => outer.trans inner⟩
  have irreflexive : Std.Irrefl within := ⟨fun whole => founded.acyclic ⟨whole⟩⟩
  exact Subrelation.wf (fun contains => .single contains)
    (Finite.wellFounded_of_trans_of_irrefl within)

/-- So the arrays of every known type end. -/
theorem Founded.ends (founded : tables.Founded) {id : TypeId}
    (inside : id.index < tables.types.size) : tables.Ends id := by
  have within (index : Fin tables.types.size) : tables.Ends ⟨index⟩ := by
    induction index using founded.wellFounded.induction with
    | h index inductionHypothesis =>
      have there := Array.getElem?_eq_getElem index.isLt
      by_cases isArray : tables.types[index].isArray = true
      · cases type : tables.types[index] with
        | array element size =>
          have known : tables.types[index.val]? = some (.array element size) := type ▸ there
          have contains : tables.Contains ⟨index⟩ element := ⟨_, known, by simp [Ty.parts]⟩
          obtain ⟨extents, base, shape⟩ :=
            inductionHypothesis ⟨element.index, founded.known contains⟩ contains
          exact ⟨size :: extents, base, .array known shape⟩
        | _ => simp [type, Ty.isArray] at isArray
      · exact ⟨[], ⟨index⟩, .base there (by simpa using isArray)⟩
  exact within ⟨id.index, inside⟩

/-- Where every type is made of earlier ones there are no cycles. -/
theorem Acyclic.founded (acyclic : tables.Acyclic) : tables.Founded where
  known := by
    rintro whole part ⟨type, there, member⟩
    exact Nat.lt_trans (acyclic there part member) (index_lt_of_getElem? there)
  acyclic id cycle := by
    have earlier {whole part : TypeId} (within : Relation.TransGen tables.Contains whole part) :
        part.index < whole.index := by
      induction within with
      | single contains =>
        obtain ⟨type, there, member⟩ := contains
        exact acyclic there _ member
      | tail _ contains inductionHypothesis =>
        obtain ⟨type, there, member⟩ := contains
        exact Nat.lt_trans (acyclic there _ member) inductionHypothesis
    exact Nat.lt_irrefl _ (earlier cycle)

end Tables

/-! ## The required fields -/

/-- A field whose type is told by the extents of its arrays and the type under them. -/
structure FieldForm where
  name : Name
  extents : List Nat
  base : TypeId
  precision : Precision
  decorations : List Decoration
  builtIn : Option BuiltIn
deriving DecidableEq

/-- The form of a field. -/
def Tables.formOf (tables : Tables) (field : Field) : FieldForm where
  name := field.name
  extents := (tables.shapeOf field.type).extents
  base := (tables.shapeOf field.type).base
  precision := field.precision
  decorations := field.decorations
  builtIn := field.builtIn

namespace Layout

/-- The texts of all elements of an array, in row-major order: every level appends its index. -/
def elementTexts (text : String) : (extents : List Nat) → List String
  | [] => [text]
  | size :: inner => (List.range size).flatMap fun index =>
      elementTexts (text ++ "_" ++ toString index) inner

/-- The external fields that are required for one field. -/
def requiredFor (tables : Tables) (rules : LayoutRules) (field : Field) : List FieldForm :=
  let form := tables.formOf field
  let base := if rules.widenBools then tables.numbersFor form.base else form.base
  if rules.inlineArrays then
    (elementTexts form.name.text form.extents).map fun text =>
      { form with name := { form.name with text }, extents := [], base }
  else
    [{ form with base }]

/-- The fields that the external layout is required to have, each with the position of the field
that it comes from. -/
def required (tables : Tables) (rules : LayoutRules) (fields : List Field) :
    List (Nat × FieldForm) :=
  let inOrder := fields.zipIdx.flatMap fun (field, source) =>
    (requiredFor tables rules field).map (source, ·)
  if rules.builtInsFirst then
    inOrder.filter (·.2.builtIn.isSome) ++ inOrder.filter (·.2.builtIn.isNone)
  else
    inOrder

variable {tables before after : Tables} {rules : LayoutRules} {sizes : Nat → Prop}

/-- The names of the elements are those of their positions. -/
theorem elementTexts_eq (text : String) (extents : List Nat) :
    elementTexts text extents = (positions extents).map (partText text) := by
  induction extents generalizing text with
  | nil => rfl
  | cons size inner inductionHypothesis =>
    simp only [elementTexts, positions, inductionHypothesis, List.map_flatMap, List.map_map]
    rfl

/-- The form of a field stays the same while the tables grow. -/
theorem formOf_extends {field : Field} (ends : before.Ends field.type)
    (extended : before.Extends after) : after.formOf field = before.formOf field := by
  simp only [Tables.formOf, ends.shapeOf_extends extended]

/-- What is required for a field over known types does not change when the tables grow. -/
theorem requiredFor_extends {field : Field} (ends : before.Ends field.type)
    (extended : before.Extends after) (rules : LayoutRules) :
    requiredFor after rules field = requiredFor before rules field := by
  obtain ⟨entry, known, -⟩ := ends.shapeOf_eq.base_known
  have sameNumbers : after.numbersFor (before.formOf field).base =
      before.numbersFor (before.formOf field).base := by
    unfold Tables.numbersFor Tables.formOf
    rw [known, extended.types known]
  simp only [requiredFor, formOf_extends ends extended, sameNumbers]

/-! ## Placing the required fields -/

/-- The type of a part has the same arrays over the required type. -/
theorem partType_shape (sound : tables.Sound) {type base external : TypeId} {extents : List Nat}
    (shape : tables.HasShape type extents base)
    (made : partType tables rules type = .ok (external, after)) :
    after.HasShape external extents
      (if rules.widenBools then tables.numbersFor base else base) := by
  unfold partType at made
  split at made
  case isFalse keep =>
    obtain ⟨rfl, rfl⟩ := Prod.mk.inj (Except.ok.inj made)
    rwa [if_neg keep]
  case isTrue wide =>
    obtain ⟨entry, known, -⟩ := shape.base_known
    rw [Tables.widenBools_eq sound shape known] at made
    rw [if_pos wide]
    by_cases isTruth : entry.isTruth = true
    · obtain ⟨_, wideKnown, isUnsigned⟩ := (sound.widensBase known isTruth).isUnsigned sound
      obtain ⟨id, grown, arrayOk, wideShape, -⟩ :=
        @Tables.arrayOver_grows tables (fun _ => True) _ _ extents wideKnown isUnsigned
          fun _ _ => trivial
      rw [if_pos isTruth, arrayOk] at made
      obtain ⟨rfl, rfl⟩ := Prod.mk.inj (Except.ok.inj made)
      exact wideShape
    · rw [if_neg isTruth] at made
      obtain ⟨rfl, rfl⟩ := Prod.mk.inj (Except.ok.inj made)
      rwa [Tables.numbersFor_eq_self known (by simpa using isTruth)]

/-- A placed field as it is told by its source and its form. -/
def told (tables : Tables) (placement : Placement) : Nat × FieldForm :=
  (placement.source, tables.formOf placement.field)

/-- The places of a field are the required ones. -/
theorem placeField_required (sound : tables.Sound) {source : Nat} {field : Field}
    (ends : tables.Ends field.type) {placements : List Placement}
    (made : placeField tables rules source field = .ok (placements, after)) :
    placements.map (told after) = (requiredFor tables rules field).map (source, ·) := by
  have shape := ends.shapeOf_eq
  rcases placeField_inv made with
    ⟨inline, empty, rfl, -⟩ | ⟨extents, base, external, splits, -, typed, rfl⟩
  · simp [requiredFor, inline, elementTexts_eq, Tables.formOf, positions_eq_nil empty]
  · by_cases inline : rules.inlineArrays = true
    · rw [Splits, if_pos inline] at splits
      obtain ⟨sameExtents, sameBase⟩ := splits.unique shape
      obtain ⟨entry, known, plain⟩ := splits.base_known
      have externalShape := partType_shape sound (.base known plain) typed
      have isExternal := externalShape.shapeOf_eq (Nat.zero_le _)
      simp [requiredFor, inline, elementTexts_eq, told, placement, Tables.formOf, isExternal,
        sameExtents, sameBase, partName, Function.comp_def]
    · rw [Splits, if_neg inline] at splits
      obtain ⟨rfl, rfl⟩ := splits
      have externalShape := partType_shape sound shape typed
      have isExternal := externalShape.shapeOf_eq (Nat.le_of_lt externalShape.length_lt)
      simp [requiredFor, inline, told, placement, Tables.formOf, isExternal, positions, partName,
        partText]

/-- What holds a part of a type whose arrays end has such a type. -/
theorem HoldsPart.ends {field : Field} {placement : Placement}
    (holds : HoldsPart tables rules field placement) (ends : tables.Ends field.type) :
    tables.Ends placement.field.type := by
  obtain ⟨extents, splits, -, retypes⟩ := holds
  unfold Retypes at retypes
  split at retypes
  · generalize placement.field.type = external, placement.type = type at retypes
    cases retypes with
    | same shape => exact ⟨_, _, shape⟩
    | widened _ _ wideShape => exact ⟨_, _, wideShape⟩
  · rw [retypes]
    unfold Splits at splits
    split at splits
    · obtain ⟨entry, known, plain⟩ := splits.base_known
      exact ⟨_, _, .base known plain⟩
    · rwa [splits.2]

/-- The places of several fields are the required ones. -/
theorem placeFields_required (sound : tables.Sound) {source : Nat} {fields : List Field}
    (ends : ∀ field ∈ fields, tables.Ends field.type) {placements : List Placement}
    (made : placeFields tables rules fields source = .ok (placements, after)) :
    placements.map (told after) = (fields.zipIdx source).flatMap fun (field, source) =>
      (requiredFor tables rules field).map (source, ·) := by
  induction fields generalizing tables source placements with
  | nil =>
    obtain ⟨rfl, rfl⟩ := Prod.mk.inj (Except.ok.inj made)
    rfl
  | cons field fields inductionHypothesis =>
    obtain ⟨first, middle, rest, firstOk, restOk, rfl⟩ := placeFields_cons_inv made
    rw [List.forall_mem_cons] at ends
    obtain ⟨toMiddle, placed⟩ := placeField_grows sound tables.sized_true firstOk
    have middleSound := toMiddle.sound sound
    obtain ⟨toAfter, -⟩ := placeFields_grows middleSound middle.sized_true restOk
    have endsRest : ∀ other ∈ fields, middle.Ends other.type := fun other member =>
      (ends.2 other member).extends toMiddle.toExtends
    -- The forms of the first places are the same in the tables after placing the others.
    have sameForms : first.map (told after) = first.map (told middle) := by
      refine List.map_congr_left fun placement member => ?_
      rcases placed with rfl | placed
      · simp at member
      · have holds := (placed.holdsPart member).2
        rw [told, told, formOf_extends (holds.ends (ends.1.extends toMiddle.toExtends))
          toAfter.toExtends]
    have sameRest : ∀ other ∈ fields.zipIdx (source + 1),
        (requiredFor middle rules other.1).map (other.2, ·) =
          (requiredFor tables rules other.1).map (other.2, ·) := fun other member => by
      rw [requiredFor_extends (ends.2 other.1 (List.fst_mem_of_mem_zipIdx member))
        toMiddle.toExtends]
    have here := placeField_required sound ends.1 firstOk
    have there := inductionHypothesis middleSound endsRest restOk
    rw [List.map_append, sameForms, here, there, List.zipIdx_cons, List.flatMap_cons,
      List.flatMap_congr sameRest]

/-- The external fields are the required ones, in their order. -/
theorem order_required (sound : tables.Sound) {fields : List Field}
    (ends : ∀ field ∈ fields, tables.Ends field.type) {placements : List Placement}
    (made : placeFields tables rules fields 0 = .ok (placements, after)) :
    (order rules placements).map (told after) = required tables rules fields := by
  rw [required, ← placeFields_required sound ends made, order]
  split
  · have others : (not ∘ fun placement : Placement => placement.field.builtIn.isSome) =
        (fun entry : Nat × FieldForm => entry.2.builtIn.isNone) ∘ told after := by
      funext placement
      simp [told, Tables.formOf]
    rw [List.partition_eq_filter_filter, List.filter_map, List.filter_map, ← List.map_append, others]
    rfl
  · rfl

/-! ## When no other layout is required -/

/-- Nothing moves ahead if those that pass a test are ahead already. -/
theorem filter_append_filter_eq_self {α : Type} {test : α → Bool} {entries : List α}
    (sorted : (entries.filter test ++ entries.filter (not ∘ test)).map test = entries.map test) :
    entries.filter test ++ entries.filter (not ∘ test) = entries := by
  induction entries with
  | nil => rfl
  | cons entry entries inductionHypothesis =>
    by_cases passes : test entry = true
    · have skips : (entry :: entries).filter (not ∘ test) = entries.filter (not ∘ test) :=
        List.filter_cons_of_neg (by simp [passes])
      rw [List.filter_cons_of_pos passes, skips, List.cons_append] at sorted ⊢
      rw [inductionHypothesis (List.cons.inj sorted).2]
    · -- The first one stays ahead, so no other one passes the test.
      have none : entries.filter test = [] := by
        cases ahead : entries.filter test with
        | nil => rfl
        | cons first rest =>
          have isFirst : test first = true := by
            have own : first ∈ entries.filter test := by simp [ahead]
            exact (List.mem_filter.mp own).2
          simp [passes, ahead, isFirst] at sorted
      have all : entries.filter (not ∘ test) = entries := by
        rw [List.filter_eq_self]
        intro other member
        simpa using List.filter_eq_nil_iff.mp none other member
      simp [passes, none, all]

/-- Fields that are neither taken apart nor given another type stay as they are, and no type is
made. -/
theorem placeFields_unchanged (sound : tables.Sound) {source : Nat} {fields : List Field}
    {placements : List Placement}
    (made : placeFields tables rules fields source = .ok (placements, after))
    (unsplit : ∀ field ∈ fields, splits tables rules field = false)
    (sameTypes : ∀ placement ∈ placements, placement.field.type = placement.type) :
    placements.map Placement.field = fields ∧
      placements.map Placement.source = List.range' source fields.length ∧ after = tables := by
  induction fields generalizing tables source placements with
  | nil =>
    obtain ⟨rfl, rfl⟩ := Prod.mk.inj (Except.ok.inj made)
    exact ⟨rfl, rfl, rfl⟩
  | cons field fields inductionHypothesis =>
    obtain ⟨first, middle, rest, firstOk, restOk, rfl⟩ := placeFields_cons_inv made
    rw [List.forall_mem_cons] at unsplit
    rw [List.forall_mem_append] at sameTypes
    have flat (inline : rules.inlineArrays = true) : (tables.shapeOf field.type).extents = [] := by
      simpa [splits, inline] using unsplit.1
    obtain ⟨sameFirst, sameSource, rfl⟩ : first.map Placement.field = [field] ∧
        first.map Placement.source = [source] ∧ middle = tables := by
      rcases placeField_inv firstOk with
        ⟨inline, empty, -, -⟩ | ⟨extents, base, external, splits, -, typed, rfl⟩
      · simp [flat inline] at empty
      · obtain ⟨rfl, rfl⟩ : extents = [] ∧ base = field.type := by
          unfold Splits at splits
          split at splits
          case isFalse => exact splits
          case isTrue inline =>
            have isShape := splits.shapeOf_eq (Nat.le_of_lt splits.length_lt)
            have noExtents := flat inline
            rw [isShape] at noExtents
            obtain rfl : extents = [] := noExtents
            cases splits
            exact ⟨rfl, rfl⟩
        obtain rfl : external = field.type := sameTypes.1 _ List.mem_cons_self
        obtain ⟨-, -, same⟩ := partType_grows sound tables.sized_true typed
        exact ⟨rfl, rfl, same rfl⟩
    obtain ⟨sameRest, sources, sameTables⟩ :=
      inductionHypothesis sound restOk unsplit.2 sameTypes.2
    exact ⟨by simp [sameFirst, sameRest], by simp [sameSource, sources, List.range'_succ],
      sameTables⟩

/-- Every entry of a layout is required for one of the fields. -/
theorem mem_required {fields : List Field} {entry : Nat × FieldForm}
    (member : entry ∈ required tables rules fields) :
    ∃ field ∈ fields, entry.2 ∈ requiredFor tables rules field := by
  have inOrder : entry ∈ fields.zipIdx.flatMap fun (field, source) =>
      (requiredFor tables rules field).map (source, ·) := by
    unfold required at member
    split at member
    · rcases List.mem_append.mp member with ahead | behind
      · exact (List.mem_filter.mp ahead).1
      · exact (List.mem_filter.mp behind).1
    · exact member
  obtain ⟨⟨field, source⟩, own, isRequired⟩ := List.mem_flatMap.mp inOrder
  obtain ⟨form, isForm, rfl⟩ := List.mem_map.mp isRequired
  exact ⟨field, List.fst_mem_of_mem_zipIdx own, isForm⟩

/-- Where arrays are taken apart, no array is required. -/
theorem requiredFor_extents (inline : rules.inlineArrays = true) {field : Field} {form : FieldForm}
    (member : form ∈ requiredFor tables rules field) : form.extents = [] := by
  simp only [requiredFor, inline, if_true, List.mem_map] at member
  obtain ⟨text, -, rfl⟩ := member
  rfl

/-- Where truth values are held as numbers, no truth values are required. -/
theorem requiredFor_base (sound : tables.Sound) (widen : rules.widenBools = true) {field : Field}
    (ends : tables.Ends field.type) {form : FieldForm}
    (member : form ∈ requiredFor tables rules field) :
    ∃ type, tables.types[form.base.index]? = some type ∧ type.isTruth = false := by
  have isBase : form.base = tables.numbersFor (tables.shapeOf field.type).base := by
    simp only [requiredFor, widen, if_true] at member
    split at member
    · obtain ⟨text, -, rfl⟩ := List.mem_map.mp member
      rfl
    · obtain rfl := List.mem_singleton.mp member
      rfl
  obtain ⟨entry, known, -⟩ := ends.shapeOf_eq.base_known
  rw [isBase]
  by_cases isTruth : entry.isTruth = true
  · obtain ⟨wide, wideKnown, isUnsigned⟩ := (sound.widensBase known isTruth).isUnsigned sound
    refine ⟨wide, wideKnown, Bool.eq_false_iff.mpr fun alsoTruth => ?_⟩
    simp [wide.isUnsigned_of_isTruth alsoTruth] at isUnsigned
  · have plain : entry.isTruth = false := by simpa using isTruth
    exact ⟨entry, by rwa [Tables.numbersFor_eq_self known plain], plain⟩

/-- A field and its parts have the same type under their arrays. -/
theorem Splits.base_eq {type part base : TypeId} {extents inner : List Nat}
    (splits : Splits tables rules type extents part) (shape : tables.HasShape part inner base) :
    (tables.shapeOf type).base = base := by
  unfold Splits at splits
  split at splits
  · obtain ⟨entry, known, plain⟩ := splits.base_known
    obtain ⟨-, rfl⟩ := shape.unique (.base known plain)
    rw [splits.shapeOf_eq (Nat.le_of_lt splits.length_lt)]
  · obtain ⟨-, rfl⟩ := splits
    rw [shape.shapeOf_eq (Nat.le_of_lt shape.length_lt)]

/-- A field that is required as it is holds no truth values where they are held as numbers, so none
of its parts gets another type. -/
theorem HoldsPart.type_eq (sound : before.Sound) (extended : before.Extends after)
    {field other : Field} (ends : before.Ends field.type) (otherEnds : before.Ends other.type)
    (isRequired : before.formOf field ∈ requiredFor before rules other) {placement : Placement}
    (holds : HoldsPart after rules field placement) : placement.field.type = placement.type := by
  obtain ⟨extents, splits, -, retypes⟩ := holds
  unfold Retypes at retypes
  split at retypes
  case isFalse => exact retypes
  case isTrue widen =>
    generalize placement.field.type = external, placement.type = type at retypes splits
    cases retypes with
    | same => rfl
    | widened shape wider _ =>
      obtain ⟨plain, plainKnown, noTruth⟩ := requiredFor_base sound widen otherEnds isRequired
      obtain ⟨entry, known, isTruth⟩ := wider.isTruth
      have sameBase := splits.base_eq shape
      rw [ends.shapeOf_extends extended] at sameBase
      rw [Tables.formOf, sameBase] at plainKnown
      obtain rfl := Option.some.inj (known.symm.trans (extended.types plainKnown))
      simp [isTruth] at noTruth

/-- Where the built-ins are ahead already, no field moves. -/
theorem order_eq_self_of_builtIns {placements : List Placement}
    (sorted : (order rules placements).map (·.field.builtIn.isSome) =
      placements.map (·.field.builtIn.isSome)) : order rules placements = placements := by
  unfold order at sorted ⊢
  split
  · rename_i first
    rw [if_pos first, List.partition_eq_filter_filter] at sorted
    rw [List.partition_eq_filter_filter]
    exact filter_append_filter_eq_self sorted
  · rfl

/-- The rules require the layout that a struct has just in case no field is taken apart, given
another type or moved. -/
theorem required_eq_iff (sound : tables.Sound) {fields : List Field}
    (ends : ∀ field ∈ fields, tables.Ends field.type) {placements : List Placement}
    (made : placeFields tables rules fields 0 = .ok (placements, after)) :
    (required tables rules fields).map Prod.snd = fields.map tables.formOf ↔
      (∀ field ∈ fields, splits tables rules field = false) ∧
      (∀ placement ∈ placements, placement.field.type = placement.type) ∧
      (order rules placements).map Placement.source = placements.map Placement.source := by
  have ordered := order_required sound ends made
  constructor
  · intro same
    have isRequired {field : Field} (member : field ∈ fields) :
        ∃ other ∈ fields, tables.formOf field ∈ requiredFor tables rules other := by
      have own : tables.formOf field ∈ (required tables rules fields).map Prod.snd :=
        same ▸ List.mem_map_of_mem member
      obtain ⟨entry, isEntry, isForm⟩ := List.mem_map.mp own
      rw [← isForm]
      exact mem_required isEntry
    have unsplit : ∀ field ∈ fields, splits tables rules field = false := by
      intro field member
      obtain ⟨other, -, isForm⟩ := isRequired member
      cases inline : rules.inlineArrays with
      | false => simp [splits, inline]
      | true =>
        have flat : (tables.shapeOf field.type).extents = [] := requiredFor_extents inline isForm
        simp [splits, flat]
    have sameTypes : ∀ placement ∈ placements, placement.field.type = placement.type := by
      intro placement member
      obtain ⟨grows, holds⟩ := placeFields_grows sound tables.sized_true made
      obtain ⟨field, there, holdsPart⟩ := (holds placement member).holds
      have own := List.mem_of_getElem? there
      obtain ⟨other, isOther, isForm⟩ := isRequired own
      exact holdsPart.type_eq sound grows.toExtends (ends field own) (ends other isOther) isForm
    obtain ⟨sameFields, -, -⟩ := placeFields_unchanged sound made unsplit sameTypes
    have sorted : (order rules placements).map (·.field.builtIn.isSome) =
        placements.map (·.field.builtIn.isSome) := by
      have flags := congrArg (List.map fun form => form.builtIn.isSome) same
      rw [← ordered, ← sameFields, List.map_map, List.map_map, List.map_map, List.map_map] at flags
      exact flags
    exact ⟨unsplit, sameTypes, by rw [order_eq_self_of_builtIns sorted]⟩
  · rintro ⟨unsplit, sameTypes, sameOrder⟩
    obtain ⟨sameFields, sources, rfl⟩ := placeFields_unchanged sound made unsplit sameTypes
    have stays : order rules placements = placements :=
      order_eq_self (sources ▸ List.nodup_range') sameOrder
    rw [← ordered, stays, ← sameFields, List.map_map, List.map_map]
    rfl

/-! ## What a bridge adds -/

/-- What there is after a bridge to a layout was made. The external struct has the fields of the
layout. All else that is new are arrays of unsigned numbers, the two parameters of the conversion
function, that function, and that external fields are invariant if the fields are from which they
come. -/
structure AddsLayout (before : Tables) (invariance : Invariance) (rules : LayoutRules)
    (struct : TypeId) (name : Name) (layout : List (Nat × FieldForm)) (bridge : Bridge)
    (after : Tables) (registry : Invariance) : Prop where
  external : ∃ fields, after.types[bridge.struct.index]? = some (.struct name fields) ∧
    fields.map after.formOf = layout.map Prod.snd
  /-- So the types of the fields are the ones that the layout tells. -/
  shapes : ∀ {one other base : TypeId} {extents : List Nat}, after.HasShape one extents base →
    after.HasShape other extents base → one = other
  new : before.types.size ≤ bridge.struct.index
  types : ∀ {index : Nat} {type : Ty}, before.types[index]? = some type →
    after.types[index]? = some type
  arrays : ∀ {index : Nat}, before.types.size ≤ index → index < after.types.size →
    index ≠ bridge.struct.index → after.IsNumberArray ⟨index⟩
  vars : after.vars = before.vars ++
    #[convertEntry "original" struct, convertEntry "modified" bridge.struct]
  functions : after.functions =
    before.functions.push (convertFunction rules.conversion name before.vars.size)
  function : bridge.function = ⟨before.functions.size⟩
  stage : after.stage = before.stage
  envs : after.textureEnvs = before.textureEnvs
  invariantVars : registry.vars = invariance.vars
  invariantFields : ∀ (id : TypeId) (position : Nat), registry.hasField id position = true ↔
    invariance.hasField id position = true ∨ (id = bridge.struct ∧
      ∃ source, (layout.map Prod.fst)[position]? = some source ∧
        invariance.hasField struct source = true)

/-- A bridge that was made adds the required layout. -/
theorem addsLayout_of_made (sound : tables.Sound) (canonical : tables.Canonical)
    {invariance registry : Invariance} {struct : TypeId} {name : Name} {bridge : Bridge}
    {fields : List Field} (fieldsOk : tables.fieldsOf struct = .ok fields)
    (ends : ∀ field ∈ fields, tables.Ends field.type)
    (made : tables.createBridge invariance rules struct name = .ok (some bridge, after, registry)) :
    AddsLayout tables invariance rules struct name (required tables rules fields) bridge after
      registry := by
  obtain ⟨sameVars, ⟨isNone, -, -⟩ | ⟨_, _, placements, grown, same, sameFields, placesOk, bridges,
    adds, carried⟩⟩ := createBridge_inv made
  · cases isNone
  obtain rfl := Option.some.inj same
  obtain rfl := Except.ok.inj (fieldsOk.symm.trans sameFields)
  obtain ⟨grows, holds⟩ := placeFields_grows sound tables.sized_true placesOk
  have toAfter : grown.Extends after :=
    (Tables.addStruct_extends name _).trans adds.toExtends
  have types : after.types = grown.types.push
      (.struct name ((order rules placements).map Placement.field)) := adds.sameTypes
  have ordered := order_required sound ends placesOk
  -- The external struct is the last type.
  have isLast : bridge.struct.index = grown.types.size := by
    have inside := Tables.index_lt_of_getElem? bridges.external
    rw [types, Array.size_push] at inside
    by_contra earlier
    have old : bridge.struct.index < grown.types.size := by omega
    obtain ⟨_, _, _, _, shape, -⟩ := grows.arrays bridges.new old
    cases shape with
    | array known =>
      have struct := bridges.external
      rw [toAfter.types known] at struct
      cases struct
  constructor
  case external =>
    refine ⟨_, bridges.external, ?_⟩
    rw [← ordered, List.map_map, List.map_map]
    refine List.map_congr_left fun placement member => ?_
    obtain ⟨field, there, holdsPart⟩ := (holds placement (mem_order.mp member)).holds
    have fieldEnds := ends field (List.mem_of_getElem? there)
    exact formOf_extends (holdsPart.ends (fieldEnds.extends grows.toExtends)) toAfter
  case shapes =>
    intro one other base extents shape otherShape
    exact ((Tables.createBridge_keepsTypes made).canonical canonical).eq_of_hasShape shape otherShape
  case new => exact bridges.new
  case types => exact fun known => toAfter.types (grows.types known)
  case arrays =>
    intro index new inside other
    rw [types, Array.size_push] at inside
    exact (grows.arrays new (by omega)).extends toAfter
  case vars => exact bridges.vars
  case functions => exact bridges.functions
  case function => exact bridges.function
  case stage => exact toAfter.stage.trans grows.stage
  case envs => exact adds.sameEnvs.trans grows.sameEnvs
  case invariantVars => exact sameVars
  case invariantFields =>
    intro id position
    rw [carried, Invariance.hasField_insertFields, mem_invariantPlaces, ← ordered, List.map_map]
    rfl

end Layout

/-- Making a bridge makes just the layout that the rules require, if it has any fields. If the struct
has this layout already, there is no bridge and nothing changes: not even placing the fields made
types. Otherwise there is a bridge to a struct with the required fields. -/
theorem Session.createBridge_required {stage : Stage} {shader : Shader}
    (reached : Session.Reachable stage shader) (founded : shader.program.tables.Founded)
    {struct : TypeId} {structName : Name} {fields : List Field}
    (known : shader.program.tables.types[struct.index]? = some (.struct structName fields))
    (rules : LayoutRules) (someFields : Layout.required shader.program.tables rules fields ≠ [])
    (invariance : Invariance) (name : Name) :
    ((Layout.required shader.program.tables rules fields).map Prod.snd =
        fields.map shader.program.tables.formOf →
      shader.program.tables.createBridge invariance rules struct name =
        .ok (none, shader.program.tables, invariance) ∧
      ∃ placements, Layout.placeFields shader.program.tables rules fields 0 =
        .ok (placements, shader.program.tables)) ∧
    ((Layout.required shader.program.tables rules fields).map Prod.snd ≠
        fields.map shader.program.tables.formOf →
      ∃ bridge after registry,
        shader.program.tables.createBridge invariance rules struct name =
          .ok (some bridge, after, registry) ∧
        Layout.AddsLayout shader.program.tables invariance rules struct name
          (Layout.required shader.program.tables rules fields) bridge after registry) := by
  have sound := reached.sound
  have fieldsOk := Tables.fieldsOf_eq_ok_iff.mpr ⟨structName, known⟩
  have ends : ∀ field ∈ fields, shader.program.tables.Ends field.type := fun field member => by
    have contains : shader.program.tables.Contains struct field.type :=
      ⟨_, known, List.mem_map_of_mem member⟩
    exact founded.ends (founded.known contains)
  obtain ⟨placements, grown, placesOk⟩ := Layout.placeFields_ok rules sound ends 0
  have somePlaces : placements ≠ [] := by
    rintro rfl
    apply someFields
    rw [← Layout.order_required sound ends placesOk, Layout.order]
    split <;> rfl
  obtain ⟨⟨result, after, registry⟩, made⟩ :=
    Layout.createBridge_of_places invariance known placesOk somePlaces name
  have none_iff := Layout.createBridge_eq_none_iff fieldsOk placesOk made
  have same_iff := Layout.required_eq_iff sound ends placesOk
  constructor
  · intro same
    obtain rfl := none_iff.mpr (same_iff.mp same)
    obtain ⟨unsplit, sameTypes, -⟩ := same_iff.mp same
    obtain ⟨-, -, rfl⟩ := Layout.placeFields_unchanged sound placesOk unsplit sameTypes
    obtain ⟨-, ⟨-, rfl, rfl⟩ | ⟨_, _, _, _, isSome, -⟩⟩ := Layout.createBridge_inv made
    · exact ⟨made, placements, placesOk⟩
    · cases isSome
  · intro differ
    cases result with
    | none => exact absurd (same_iff.mpr (none_iff.mp rfl)) differ
    | some bridge =>
      exact ⟨bridge, after, registry, made,
        Layout.addsLayout_of_made sound reached.wellShared.canonical fieldsOk ends made⟩

/-- The fields of a struct with a color, truth values in rows, and a built-in. -/
def maskFields : List Field :=
  [⟨⟨"color", .shaderInterface⟩, .vec4, .high, [.location 0], none⟩,
    ⟨⟨"mask", .shaderInterface⟩, ⟨22⟩, .notApplicable, [.flat, .location 1], none⟩,
    ⟨⟨"gl_FrontFacing", .internal⟩, .bool, .notApplicable, [], some .frontFacing⟩]

/-- A fragment shader for which the struct was asked, after the type of the rows. -/
def masking : Shader :=
  let tables := (Tables.intern { stage := .fragment } (.array .bool 2)).2
  let tables := (tables.intern (.array ⟨21⟩ 3)).2
  (Shader.empty .fragment).withTables (tables.addStruct (.exact "Mask") maskFields).2

/-- A session leads to the shader with the mask. -/
theorem masking_reachable : Session.Reachable .fragment masking :=
  ((Relation.ReflTransGen.single (.handled (Session.handle_request _ (.array .bool 2)))).tail
    (.handled (Session.handle_request _ (.array ⟨21⟩ 3)))).tail
      (.handled (show Session.handle _ (.addStruct (.exact "Mask") maskFields) =
        (none, .ok (.type ⟨23⟩, masking)) from rfl))

/-- With truth values as numbers and the built-in ahead, the struct gets another layout. -/
theorem Session.createBridge_required_masking :
    Session.Reachable .fragment masking ∧ masking.program.tables.Founded ∧
      masking.program.tables.types[23]? = some (.struct (.exact "Mask") maskFields) ∧
      (Layout.required masking.program.tables ⟨.toInternal, false, true, true⟩ maskFields).map
          (fun entry => (entry.1, entry.2.extents, entry.2.base)) =
        [(2, [], .uint), (0, [], .vec4), (1, [3, 2], .uint)] ∧
      ∃ bridge after registry,
        masking.program.tables.createBridge {} ⟨.toInternal, false, true, true⟩ ⟨23⟩
          (.exact "MaskIn") = .ok (some bridge, after, registry) ∧
        Layout.AddsLayout masking.program.tables {} ⟨.toInternal, false, true, true⟩ ⟨23⟩
          (.exact "MaskIn")
          (Layout.required masking.program.tables ⟨.toInternal, false, true, true⟩ maskFields)
          bridge after registry := by
  have founded : masking.program.tables.Founded := Tables.Acyclic.founded (by decide)
  exact ⟨masking_reachable, founded, rfl, by decide,
    (Session.createBridge_required masking_reachable founded rfl ⟨.toInternal, false, true, true⟩
      (by decide) {} (.exact "MaskIn")).2 (by decide)⟩

end ShaderPipeline
