import ShaderPipeline.Proofs.Layout
import ShaderPipeline.Proofs.Semantics.Eval

/-!
# Values of a type

`Tables.HasValue` says which values a type has. Truth values can be held as numbers,
and are read back from them.
-/

namespace ShaderPipeline

/-- The values of a scalar kind. -/
inductive Scalar.Has : Scalar → Value → Prop where
  | void : Has .void default
  | float (bits : UInt32) : Has .float (.scalar (.float bits))
  | int (value : Int32) : Has .int (.scalar (.int value))
  | uint (value : UInt32) : Has .uint (.scalar (.uint value))
  | bool (value : Bool) : Has .bool (.scalar (.bool value))

/-- Zero is a value of every scalar kind. -/
theorem Scalar.has_zero (kind : Scalar) : kind.Has kind.zero := by
  cases kind <;> constructor

namespace Ty

/-- The types of the parts that the values of a type are made of. -/
def members? : Ty → Option (List TypeId)
  | vector component size => some (.replicate size component)
  | matrix column size => some (.replicate size column)
  | array element size => some (.replicate size element)
  | struct _ fields => some (fields.map Field.type)
  | _ => none

/-- Whether the values of a type are handles. -/
def isOpaque : Ty → Bool
  | image _ | texture _ | sampler | pointer _ | eliminated => true
  | _ => false

/-- A handle has no parts. -/
theorem members?_of_isOpaque {type : Ty} (isOpaque : type.isOpaque = true) :
    type.members? = none := by
  cases type <;> simp_all [Ty.isOpaque, members?]

end Ty

namespace Tables

variable {tables before after : Tables}

/-- The values of a type. -/
inductive HasValue (tables : Tables) : TypeId → Value → Prop where
  | scalar {id : TypeId} {kind : Scalar} {value : Value}
      (known : tables.types[id.index]? = some (.scalar kind)) (has : kind.Has value) :
      HasValue tables id value
  | aggregate {id : TypeId} {type : Ty} {members : List TypeId} {parts : List Value}
      (known : tables.types[id.index]? = some type) (made : type.members? = some members)
      (count : members.length = parts.length)
      (each : ∀ (position : Nat) (member : TypeId) (part : Value),
        members[position]? = some member → parts[position]? = some part →
          HasValue tables member part) :
      HasValue tables id (.aggregate parts)
  | handle {id : TypeId} {type : Ty} (known : tables.types[id.index]? = some type)
      (isOpaque : type.isOpaque = true) (slot : Nat) : HasValue tables id (.handle slot)

/-- A value keeps its type while the tables grow. -/
theorem HasValue.extends {id : TypeId} {value : Value} (typed : before.HasValue id value)
    (extended : before.Extends after) : after.HasValue id value := by
  induction typed with
  | scalar known has => exact .scalar (extended.types known) has
  | aggregate known made count _ inductionHypothesis =>
    exact .aggregate (extended.types known) made count inductionHypothesis
  | handle known isOpaque slot => exact .handle (extended.types known) isOpaque slot

/-- The parts of a value have the types that the value's type is made of. -/
theorem HasValue.parts {id : TypeId} {type : Ty} {members : List TypeId} {value : Value}
    (typed : tables.HasValue id value) (known : tables.types[id.index]? = some type)
    (made : type.members? = some members) :
    ∃ parts, value = .aggregate parts ∧ List.Forall₂ tables.HasValue members parts := by
  cases typed with
  | scalar isKnown =>
    obtain rfl := Option.some.inj (known.symm.trans isKnown)
    simp [Ty.members?] at made
  | aggregate isKnown isMade count each =>
    obtain rfl := Option.some.inj (known.symm.trans isKnown)
    obtain rfl := Option.some.inj (made.symm.trans isMade)
    refine ⟨_, rfl, List.forall₂_iff_get.mpr ⟨count, fun position inside also => ?_⟩⟩
    exact each position _ _ (List.getElem?_eq_getElem inside) (List.getElem?_eq_getElem also)
  | handle isKnown isOpaque =>
    obtain rfl := Option.some.inj (known.symm.trans isKnown)
    simp [Ty.members?_of_isOpaque isOpaque] at made

/-- An aggregate of values of the members is a value of the type. -/
theorem HasValue.of_parts {id : TypeId} {type : Ty} {members : List TypeId} {parts : List Value}
    (known : tables.types[id.index]? = some type) (made : type.members? = some members)
    (each : List.Forall₂ tables.HasValue members parts) : tables.HasValue id (.aggregate parts) := by
  obtain ⟨count, each⟩ := List.forall₂_iff_get.mp each
  refine .aggregate known made count fun position member part isMember isPart => ?_
  obtain ⟨inside, rfl⟩ := List.getElem?_eq_some_iff.mp isMember
  obtain ⟨also, rfl⟩ := List.getElem?_eq_some_iff.mp isPart
  exact each position inside also

/-- The elements of an array have its element type. -/
theorem HasValue.elements {id element : TypeId} {size : Nat} {value : Value}
    (typed : tables.HasValue id value)
    (known : tables.types[id.index]? = some (.array element size)) :
    ∃ parts, value = .aggregate parts ∧ parts.length = size ∧
      ∀ part ∈ parts, tables.HasValue element part := by
  obtain ⟨parts, rfl, each⟩ := typed.parts known rfl
  obtain ⟨count, -⟩ := List.forall₂_iff_get.mp each
  refine ⟨parts, rfl, by simpa using count.symm, fun part inside => ?_⟩
  obtain ⟨member, own, isTyped⟩ := Outcome.forall₂_exists_left each inside
  rwa [List.eq_of_mem_replicate own] at isTyped

/-- A truth value is one. -/
theorem HasValue.truth {id : TypeId} {value : Value} (typed : tables.HasValue id value)
    (known : tables.types[id.index]? = some (.scalar .bool)) :
    ∃ holds, value = .scalar (.bool holds) := by
  cases typed with
  | scalar isKnown has =>
    obtain ⟨rfl⟩ := Option.some.inj (known.symm.trans isKnown)
    cases has with
    | bool holds => exact ⟨holds, rfl⟩
  | aggregate isKnown made =>
    obtain rfl := Option.some.inj (known.symm.trans isKnown)
    simp [Ty.members?] at made
  | handle isKnown isOpaque =>
    obtain rfl := Option.some.inj (known.symm.trans isKnown)
    simp [Ty.isOpaque] at isOpaque

/-- What a variable holds that was given no value has its type. -/
theorem Acyclic.hasValue_zero (acyclic : tables.Acyclic) {id : TypeId}
    (inside : id.index < tables.types.size) : tables.HasValue id (tables.zero id) := by
  obtain ⟨index⟩ := id
  induction index using Nat.strongRecOn with
  | ind index inductionHypothesis =>
    have known := Array.getElem?_eq_getElem inside
    -- The zero of a part is the same, however many levels are read.
    have part {member : TypeId} (own : member ∈ tables.types[index].parts) :
        tables.HasValue member (tables.zeroWithin index member) := by
      have earlier := acyclic known member own
      rw [Acyclic.zeroWithin_eq acyclic (.refl tables) (Nat.lt_trans earlier inside) earlier
        (Nat.lt_succ_self _)]
      exact inductionHypothesis member.index earlier (Nat.lt_trans earlier inside)
    have repeated {member : TypeId} (own : member ∈ tables.types[index].parts) (size : Nat) :
        List.Forall₂ tables.HasValue (.replicate size member)
          (.replicate size (tables.zeroWithin index member)) := by
      rw [← List.map_replicate, List.forall₂_map_right_iff, List.forall₂_same]
      intro other isMember
      rw [List.eq_of_mem_replicate isMember]
      exact part own
    simp only [zero, zeroWithin, known]
    cases shape : tables.types[index] with
    | scalar kind => exact .scalar (shape ▸ known) kind.has_zero
    | vector component size =>
      exact .of_parts (shape ▸ known) rfl (repeated (by simp [shape, Ty.parts]) size)
    | matrix column size =>
      exact .of_parts (shape ▸ known) rfl (repeated (by simp [shape, Ty.parts]) size)
    | array element size =>
      exact .of_parts (shape ▸ known) rfl (repeated (by simp [shape, Ty.parts]) size)
    | struct name fields =>
      refine .of_parts (shape ▸ known) rfl ?_
      rw [List.forall₂_map_left_iff, List.forall₂_map_right_iff, List.forall₂_same]
      intro field member
      refine part ?_
      rw [shape]
      exact List.mem_map_of_mem member
    | image | texture | sampler | pointer | eliminated =>
      exact .handle (shape ▸ known) rfl 0

end Tables

/-- The elements of an array are values of the type under it. -/
theorem Tables.HasShape.hasValue_read {tables : Tables} {type base : TypeId} {extents : List Nat}
    (shape : tables.HasShape type extents base) {value : Value}
    (typed : tables.HasValue type value) {position : List Nat}
    (member : position ∈ positions extents) : tables.HasValue base (value.read position) := by
  induction shape generalizing value position with
  | base =>
    obtain rfl : position = [] := by simpa [positions] using member
    exact typed
  | array known _ inductionHypothesis =>
    obtain ⟨parts, rfl, count, each⟩ := typed.elements known
    simp only [positions, List.mem_flatMap, List.mem_range, List.mem_map] at member
    obtain ⟨first, inside, rest, isRest, rfl⟩ := member
    have there := List.getElem?_eq_getElem (count ▸ inside)
    rw [Value.read_cons, Value.part_aggregate, there, Option.getD_some]
    exact inductionHypothesis (each _ (List.mem_of_getElem? there)) isRest

/-! ## Truth values as numbers -/

namespace Value

mutual

/-- The value with its truth values held as numbers. -/
def widen : Value → Value
  | scalar (.bool holds) => scalar (.uint (if holds then 1 else 0))
  | scalar value => scalar value
  | aggregate parts => aggregate (widenAll parts)
  | handle slot => handle slot
termination_by structural value => value

/-- The values, each with its truth values held as numbers. -/
def widenAll : List Value → List Value
  | [] => []
  | part :: parts => part.widen :: widenAll parts
termination_by structural parts => parts

end

/-- Widening an aggregate widens its parts. -/
theorem widen_aggregate (parts : List Value) :
    (aggregate parts).widen = aggregate (parts.map widen) := by
  rw [widen]
  congr 1
  induction parts with
  | nil => rfl
  | cons part parts inductionHypothesis => simp [widenAll, inductionHypothesis]

/-- So a part of a widened value is the widened part. -/
theorem widen_part (value : Value) (position : Nat) :
    value.widen.part position = (value.part position).widen := by
  cases value with
  | scalar value => cases value <;> rfl
  | aggregate parts =>
    rw [widen_aggregate, part_aggregate, part_aggregate, List.getElem?_map]
    cases parts[position]? <;> rfl
  | handle slot => rfl

/-- So is what is read along a path. -/
theorem widen_read (value : Value) (path : List Nat) :
    value.widen.read path = (value.read path).widen := by
  induction path generalizing value with
  | nil => rfl
  | cons position path inductionHypothesis =>
    rw [read_cons, widen_part, inductionHypothesis, read_cons]

/-- Truth values are held as one or zero. -/
theorem widen_truths (truths : List Bool) :
    (aggregate (truths.map fun holds => scalar (.bool holds))).widen =
      aggregate (truths.map fun holds => scalar (.uint (if holds then 1 else 0))) := by
  rw [widen_aggregate, List.map_map]
  rfl

end Value

/-- The components of a vector of truth values are truth values. -/
theorem Tables.HasValue.truths {tables : Tables} (sound : tables.Sound) {id : TypeId} {size : Nat}
    {value : Value} (typed : tables.HasValue id value)
    (known : tables.types[id.index]? = some (.vector .bool size)) :
    ∃ truths : List Bool, value = .aggregate (truths.map fun holds => .scalar (.bool holds)) ∧
      truths.length = size := by
  obtain ⟨parts, rfl, each⟩ := typed.parts known rfl
  refine ⟨parts.map Value.truth, ?_, by simpa using each.length_eq.symm⟩
  rw [Value.aggregate.injEq, List.map_map]
  conv_lhs => rw [← List.map_id parts]
  refine List.map_congr_left fun part inside => ?_
  obtain ⟨member, own, isTyped⟩ := Outcome.forall₂_exists_left each inside
  rw [List.eq_of_mem_replicate own] at isTyped
  obtain ⟨holds, rfl⟩ := isTyped.truth (sound.predefined rfl)
  rfl

/-- A type of truth values is a scalar or a vector of them. -/
theorem Ty.isTruth_cases {type : Ty} (isTruth : type.isTruth = true) :
    type = .scalar .bool ∨ ∃ size, type = .vector .bool size := by
  cases type with
  | scalar kind => cases kind <;> simp_all [Ty.isTruth]
  | vector component size => simpa [Ty.isTruth] using isTruth
  | _ => simp [Ty.isTruth] at isTruth

/-- A truth value that is made from a number says whether the number is not zero, in a vector one
component at a time. -/
structure Interpretation.ReadsTruth (interp : Interpretation) (tables : Tables) : Prop where
  scalar : ∀ {id : TypeId}, tables.types[id.index]? = some (.scalar .bool) → ∀ number : UInt32,
    interp.construct id [.scalar (.uint number)] = .scalar (.bool (number != 0))
  vector : ∀ {id : TypeId} {size : Nat}, tables.types[id.index]? = some (.vector .bool size) →
    ∀ numbers : List UInt32, numbers.length = size →
      interp.construct id [.aggregate (numbers.map fun number => .scalar (.uint number))] =
        .aggregate (numbers.map fun number => .scalar (.bool (number != 0)))

/-- Truth values are read from numbers, and a number that is made from a truth value is one or zero,
in a vector one component at a time. -/
structure Interpretation.ConvertsTruth (interp : Interpretation) (tables : Tables) : Prop
    extends interp.ReadsTruth tables where
  number : ∀ {id : TypeId}, tables.types[id.index]? = some (.scalar .uint) → ∀ holds : Bool,
    interp.construct id [.scalar (.bool holds)] = .scalar (.uint (if holds then 1 else 0))
  numbers : ∀ {id : TypeId} {size : Nat}, tables.types[id.index]? = some (.vector .uint size) →
    ∀ truths : List Bool, truths.length = size →
      interp.construct id [.aggregate (truths.map fun holds => .scalar (.bool holds))] =
        .aggregate (truths.map fun holds => .scalar (.uint (if holds then 1 else 0)))

namespace Interpretation

variable {interp : Interpretation} {tables before after : Tables}

/-- Scalars and vectors are never made, so tables with more types ask for nothing else. -/
theorem ReadsTruth.since (reads : interp.ReadsTruth before)
    (news : ∀ {index : Nat} {type : Ty}, after.types[index]? = some type →
      before.types[index]? = some type ∨ type.isMade = true) : interp.ReadsTruth after where
  scalar known := reads.scalar ((news known).resolve_right (by decide))
  vector known :=
    reads.vector ((news known).resolve_right (by simp [Ty.isMade, Ty.isStruct, Ty.key?]))

/-- An interpretation that converts truth values does so in later tables, if no type came in but
made ones. -/
theorem ConvertsTruth.since (converts : interp.ConvertsTruth before)
    (news : ∀ {index : Nat} {type : Ty}, after.types[index]? = some type →
      before.types[index]? = some type ∨ type.isMade = true) : interp.ConvertsTruth after where
  toReadsTruth := converts.toReadsTruth.since news
  number known := converts.number ((news known).resolve_right (by decide))
  numbers known :=
    converts.numbers ((news known).resolve_right (by simp [Ty.isMade, Ty.isStruct, Ty.key?]))

/-- Truth values are read back from the numbers that hold them. -/
theorem ReadsTruth.construct_widen (reads : interp.ReadsTruth tables) (sound : tables.Sound)
    {base : TypeId} {entry : Ty} (known : tables.types[base.index]? = some entry)
    (isTruth : entry.isTruth = true) {value : Value} (typed : tables.HasValue base value) :
    interp.construct base [value.widen] = value := by
  have back (holds : Bool) : ((if holds then 1 else 0 : UInt32) != 0) = holds := by
    cases holds <;> rfl
  obtain rfl | ⟨size, rfl⟩ := Ty.isTruth_cases isTruth
  · obtain ⟨holds, rfl⟩ := typed.truth known
    rw [Value.widen, reads.scalar known, back]
  · obtain ⟨truths, rfl, count⟩ := typed.truths sound known
    have made := reads.vector known (truths.map fun holds => if holds then 1 else 0)
      (by simpa using count)
    simpa [Value.widen_truths, Function.comp_def, back] using made

/-- A number that is made from a truth value holds it. -/
theorem ConvertsTruth.construct_wide (converts : interp.ConvertsTruth tables)
    (sound : tables.Sound) {base wide : TypeId} (wider : tables.WidensBase base wide)
    {value : Value} (typed : tables.HasValue base value) :
    interp.construct wide [value] = value.widen := by
  cases wider with
  | bool known =>
    obtain ⟨holds, rfl⟩ := typed.truth known
    rw [Value.widen]
    exact converts.number (sound.predefined rfl) holds
  | vector known wideKnown =>
    obtain ⟨truths, rfl, count⟩ := typed.truths sound known
    rw [converts.numbers wideKnown truths count, Value.widen_truths]

end Interpretation

/-- The numbers that hold the truth values of a type have the type for that. -/
theorem Tables.WidensBase.hasValue_widen {tables : Tables} (sound : tables.Sound)
    {base wide : TypeId} (wider : tables.WidensBase base wide) {value : Value}
    (typed : tables.HasValue base value) : tables.HasValue wide value.widen := by
  have number (holds : Bool) : tables.HasValue .uint (.scalar (.uint (if holds then 1 else 0))) :=
    .scalar (sound.predefined rfl) (.uint _)
  cases wider with
  | bool known =>
    obtain ⟨holds, rfl⟩ := typed.truth known
    exact number holds
  | vector known wideKnown =>
    obtain ⟨truths, rfl, rfl⟩ := typed.truths sound known
    rw [Value.widen_truths]
    refine .of_parts wideKnown rfl ?_
    rw [← List.map_const', List.forall₂_map_left_iff, List.forall₂_map_right_iff,
      List.forall₂_same]
    exact fun holds _ => number holds

/-- So it is in arrays with the same extents. -/
theorem Tables.HasShape.hasValue_widen {tables : Tables} (sound : tables.Sound)
    {type external base wide : TypeId} {extents : List Nat}
    (shape : tables.HasShape type extents base) (wider : tables.WidensBase base wide)
    (wideShape : tables.HasShape external extents wide) {value : Value}
    (typed : tables.HasValue type value) : tables.HasValue external value.widen := by
  induction shape generalizing external value with
  | base =>
    cases wideShape with
    | base => exact wider.hasValue_widen sound typed
  | array known _ inductionHypothesis =>
    cases wideShape with
    | array wideKnown wideShape =>
      obtain ⟨parts, rfl, each⟩ := typed.parts known rfl
      rw [Value.widen_aggregate]
      refine .of_parts wideKnown rfl (List.forall₂_iff_get.mpr
        ⟨by simpa using each.length_eq, fun position inside there => ?_⟩)
      have also : position < parts.length := by simpa using there
      have part := each.get (by simpa [each.length_eq] using also) also
      simp only [List.get_eq_getElem, List.getElem_replicate, List.getElem_map] at part ⊢
      exact inductionHypothesis wider wideShape part

end ShaderPipeline
