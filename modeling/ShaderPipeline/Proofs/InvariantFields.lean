import ShaderPipeline.Proofs.Classification
import ShaderPipeline.Proofs.Parts

/-!
# Invariant fields

A variable that is qualified as invariant takes its qualifier along into the
struct of its category, and from there into every field of the external struct
that holds a part of it. `Carried` says which fields of the two structs are
registered. Lowering registers those and no other field, and no variable.
-/

namespace ShaderPipeline

/-! ## The registry -/

namespace Invariance

variable {invariance : Invariance} {struct other : TypeId} {position : Nat}

/-- A field that is registered joins those that were. -/
theorem hasField_insertField {place : Nat} :
    (invariance.insertField struct place).hasField other position = true ↔
      invariance.hasField other position = true ∨ (other = struct ∧ position = place) := by
  simp only [insertField, hasField, List.contains_iff_mem, List.mem_insert_iff, Prod.mk.injEq]
  exact or_comm

/-- So do several fields of a struct. -/
theorem hasField_insertFields {chosen : List Nat} :
    (invariance.insertFields struct chosen).hasField other position = true ↔
      invariance.hasField other position = true ∨ (other = struct ∧ position ∈ chosen) := by
  unfold insertFields
  induction chosen generalizing invariance with
  | nil => simp
  | cons place chosen inductionHypothesis =>
    rw [List.foldl_cons, inductionHypothesis, hasField_insertField, List.mem_cons, or_assoc]
    tauto

end Invariance

/-- The places of the entries that pass a test. -/
theorem mem_places_iff {α : Type} (test : α → Bool) {entries : List α} {place : Nat} :
    place ∈ ((List.range entries.length).zip entries).filterMap
        (fun (place, entry) => if test entry then some place else none) ↔
      ∃ entry, entries[place]? = some entry ∧ test entry = true := by
  simp only [List.mem_filterMap, Prod.exists, Option.ite_none_right_eq_some, Option.some.injEq]
  constructor
  · rintro ⟨place, entry, member, passes, rfl⟩
    obtain ⟨index, there⟩ := List.mem_iff_getElem?.mp member
    obtain ⟨isPlace, isEntry⟩ := List.getElem?_zip_eq_some.mp there
    obtain ⟨inside, same⟩ := List.getElem?_eq_some_iff.mp isPlace
    obtain rfl : index = place := by simpa using same
    exact ⟨entry, isEntry, passes⟩
  · rintro ⟨entry, there, passes⟩
    have inside := (List.getElem?_eq_some_iff.mp there).1
    refine ⟨place, entry, List.mem_iff_getElem?.mpr ⟨place, ?_⟩, passes, rfl⟩
    exact List.getElem?_zip_eq_some.mpr ⟨List.getElem?_range inside, there⟩

/-- The invariant positions of gathered variables are those of the invariant ones. -/
theorem Gathering.mem_invariantPositions {invariance : Invariance} {members : List VariableId}
    {position : Nat} : position ∈ invariantPositions invariance members ↔
      ∃ id, members[position]? = some id ∧ invariance.hasVariable id = true :=
  mem_places_iff invariance.hasVariable

/-- The invariant places of a struct's placements are those of parts of invariant fields. -/
theorem Layout.mem_invariantPlaces {invariance : Invariance} {struct : TypeId}
    {placements : List Placement} {place : Nat} :
    place ∈ invariantPlaces invariance struct placements ↔
      ∃ source, (placements.map Placement.source)[place]? = some source ∧
        invariance.hasField struct source = true := by
  refine (mem_places_iff fun placement : Placement =>
    invariance.hasField struct placement.source).trans ?_
  simp

/-! ## Gathering -/

/-- A sampler that is gathered is not invariant. -/
theorem Tables.fieldsFor_unmarked {tables after : Tables} {invariance : Invariance}
    {members : List VariableId} {fields : List Field}
    (made : tables.fieldsFor invariance .textures members = .ok (fields, after)) :
    ∀ id ∈ members, invariance.hasVariable id = false := by
  induction members generalizing tables fields with
  | nil => simp
  | cons id members inductionHypothesis =>
    simp only [fieldsFor, Outcome.bind_eq_ok_iff, Outcome.pure_eq_ok, Except.ok.injEq,
      Prod.mk.injEq] at made
    obtain ⟨⟨field, middle⟩, fieldOk, ⟨others, last⟩, othersOk, -, rfl⟩ := made
    obtain ⟨entry, -, sampler⟩ := fieldFor_inv fieldOk
    exact List.forall_mem_cons.mpr ⟨(sampler rfl).1, inductionHypothesis othersOk⟩

namespace GatherRun

variable {shader result : Shader} {category : Category} {supplied : Option VariableId}
  {gathering : Gathering}

/-- Gathering registers the fields of its struct whose variables are invariant. -/
theorem registry_hasField (run : GatherRun shader category none gathering result)
    {struct : TypeId} {position : Nat} :
    run.registry.hasField struct position = true ↔
      shader.invariance.hasField struct position = true ∨
        struct = gathering.internal ∧ ∃ id, gathering.members[position]? = some id ∧
          shader.invariance.hasVariable id = true := by
  rw [run.registry_of_unsupplied, Invariance.hasField_insertFields,
    Gathering.mem_invariantPositions]

/-- A struct that is made for a category is new. -/
theorem internal_new (run : GatherRun shader category none gathering result) :
    shader.program.tables.types.size ≤ gathering.internal.index := by
  have made := run.internalOk
  simp only [Gathering.internalStruct, Gathering.createInternal, Tables.createStruct,
    Outcome.bind_eq_ok_iff, Outcome.pure_eq_ok, Except.ok.injEq, Prod.mk.injEq] at made
  obtain ⟨_, ⟨⟨fields, grown⟩, fieldsOk, _, ⟨-, -, rfl⟩, rfl⟩, isStruct, -⟩ := made
  rw [← isStruct]
  exact (Tables.fieldsFor_makes fieldsOk).1.registers.size_types

/-- No sampler that is gathered is invariant. -/
theorem textures_unmarked (run : GatherRun shader .textures none gathering result) :
    ∀ id ∈ gathering.members, shader.invariance.hasVariable id = false := by
  have made := run.internalOk
  simp only [Gathering.internalStruct, Gathering.createInternal, Outcome.bind_eq_ok_iff] at made
  obtain ⟨_, ⟨⟨fields, grown⟩, fieldsOk, -⟩, -⟩ := made
  exact Tables.fieldsFor_unmarked fieldsOk

/-- What the external layout adds to the registry. -/
theorem bridge_registry (run : GatherRun shader category supplied gathering result) :
    (gathering.external = gathering.internal ∧ result.invariance = run.registry) ∨
      ∃ rules fields placements grown, category.layoutRules = some rules ∧
        run.middle.fieldsOf gathering.internal = .ok fields ∧
        Layout.placeFields run.middle rules fields 0 = .ok (placements, grown) ∧
        grown.Evolves result.program.tables ∧
        run.middle.types.size ≤ gathering.external.index ∧
        result.program.tables.types[gathering.external.index]? =
          some (.struct (category.structName .external)
            ((Layout.order rules placements).map Placement.field)) ∧
        result.invariance = run.registry.insertFields gathering.external
          (Layout.invariantPlaces run.registry gathering.internal
            (Layout.order rules placements)) := by
  have isOuter := run.outer
  rcases run.bridge_cases with ⟨rules, hasRules, made⟩ | ⟨none, -, same⟩
  · rcases (Layout.createBridge_inv made).2 with ⟨none, -, same⟩ |
      ⟨bridge, fields, placements, grown, some, fieldsOk, placesOk, bridges, adds, same⟩
    · rw [none, Option.map_none] at isOuter
      exact .inl ⟨by rw [Gathering.external, isOuter], same⟩
    · rw [some, Option.map_some] at isOuter
      have isBridge : gathering.external = bridge.struct := by rw [Gathering.external, isOuter]
      rw [isBridge]
      exact .inr ⟨rules, fields, placements, grown, hasRules, fieldsOk, placesOk,
        (Tables.addStruct_registers _ _).evolves.trans adds.evolves, bridges.new, bridges.external,
        same⟩
  · rw [none, Option.map_none] at isOuter
    exact .inl ⟨by rw [Gathering.external, isOuter], same⟩

/-- Both structs of a category are known. -/
theorem structs_known (run : GatherRun shader category none gathering result) :
    gathering.internal.index < result.program.tables.types.size ∧
      gathering.external.index < result.program.tables.types.size := by
  obtain ⟨-, fields, struct, -⟩ := run.middle_fields
  have internal := Tables.index_lt_of_getElem? (run.middle_evolves.types struct)
  rcases run.bridge_registry with ⟨same, -⟩ | ⟨_, _, _, _, -, -, -, -, -, external, -⟩
  · exact ⟨internal, same ▸ internal⟩
  · exact ⟨internal, Tables.index_lt_of_getElem? external⟩

/-- The external struct is new, too. -/
theorem external_after (run : GatherRun shader category none gathering result) :
    shader.program.tables.types.size ≤ gathering.external.index := by
  rcases run.bridge_registry with ⟨same, -⟩ | ⟨_, _, _, _, -, -, -, -, new, -⟩
  · rw [same]
    exact run.internal_new
  · exact Nat.le_trans run.middle_makes.registers.size_types new

/-- Gathering registers fields of the two structs of the category only, and none for samplers or for
a supplied instance. -/
theorem hasField_of_ne (run : GatherRun shader category supplied gathering result)
    (only : supplied ≠ none → category.layoutRules = none) {struct : TypeId}
    (other : category ≠ .textures → supplied = none →
      struct ≠ gathering.internal ∧ struct ≠ gathering.external) (position : Nat) :
    result.invariance.hasField struct position = shader.invariance.hasField struct position := by
  have unruled (noRules : category.layoutRules = none) : result.invariance = run.registry := by
    rcases run.bridge_registry with ⟨-, same⟩ | ⟨_, _, _, _, hasRules, -⟩
    · exact same
    · simp [noRules] at hasRules
  cases supplied with
  | some id => rw [unruled (only (by simp)), run.registry_of_supplied]
  | none =>
    by_cases textures : category = .textures
    · subst textures
      rw [unruled rfl, Bool.eq_iff_iff, run.registry_hasField, or_iff_left]
      rintro ⟨-, id, there, marked⟩
      simp [run.textures_unmarked id (List.mem_of_getElem? there)] at marked
    · obtain ⟨notInternal, notExternal⟩ := other textures rfl
      have sameRegistry : run.registry.hasField struct position =
          shader.invariance.hasField struct position := by
        rw [Bool.eq_iff_iff, run.registry_hasField, or_iff_left fun own => notInternal own.1]
      rcases run.bridge_registry with ⟨-, same⟩ | ⟨_, _, _, _, -, -, -, -, -, -, same⟩
      · rw [same, sameRegistry]
      · rw [same, ← sameRegistry, Bool.eq_iff_iff, Invariance.hasField_insertFields,
          or_iff_left fun own => notExternal own.1]

end GatherRun

/-! ## Lowering -/

/-- Which fields of the structs of a category are invariant. The category was lowered in `before`,
and `marked` tells which variables are invariant. -/
structure Carried (marked : VariableId → Bool) (before lowered : Shader) (category : Category)
    (internal external : TypeId) : Prop where
  internalNew : before.program.tables.types.size ≤ internal.index
  externalNew : before.program.tables.types.size ≤ external.index
  /-- A field of the internal struct is invariant if its variable is. -/
  internalFields : ∀ position, lowered.invariance.hasField internal position = true ↔
    ∃ id, (before.claimed category none)[position]? = some id ∧ marked id = true
  /-- A field of the external struct is invariant if the internal field is that it holds a part
  of. -/
  externalFields : external ≠ internal → ∃ rules fields externals,
    category.layoutRules = some rules ∧
    lowered.program.tables.types[internal.index]? =
      some (.struct (category.structName .internal) fields) ∧
    lowered.program.tables.types[external.index]? =
      some (.struct (category.structName .external) externals) ∧
    List.Forall₂ Layout.Part.HeldBy (Layout.parts lowered.program.tables rules fields) externals ∧
    ∀ position, lowered.invariance.hasField external position = true ↔
      ∃ part, (Layout.parts lowered.program.tables rules fields)[position]? = some part ∧
        lowered.invariance.hasField internal part.source = true

/-- The registered fields are fields of known types. -/
def Shader.FieldsKnown (shader : Shader) : Prop :=
  ∀ entry ∈ shader.invariance.fields, entry.1.index < shader.program.tables.types.size

/-- No field of a new type is registered. -/
theorem Shader.FieldsKnown.hasField {shader : Shader} (known : shader.FieldsKnown)
    {struct : TypeId} (new : shader.program.tables.types.size ≤ struct.index) (position : Nat) :
    shader.invariance.hasField struct position = false := by
  rw [Invariance.hasField, List.contains_eq_mem, decide_eq_false_iff_not]
  exact fun registered => Nat.not_lt.mpr new (known _ registered)

/-- A category with a supplied instance has no layout of its own. -/
theorem Category.layoutRules_of_supplied {category : Category} {supplied : Option VariableId}
    (given : category.suppliedTo supplied ≠ none) : category.layoutRules = none := by
  unfold suppliedTo at given
  split at given
  case isTrue only =>
    subst only
    rfl
  case isFalse => exact absurd rfl given

/-- Threading registers nothing as invariant. -/
theorem Shader.thread_invariance {shader result : Shader} {gathering : Gathering}
    {dependents : List FunctionId} (threads : shader.thread gathering dependents = .ok result) :
    result.invariance = shader.invariance := by
  simp only [thread, Outcome.bind_eq_ok_iff, Outcome.pure_eq_ok, Except.ok.injEq] at threads
  obtain ⟨_, -, _, -, _, -, _, -, rfl⟩ := threads
  rfl

namespace LoweringStep

variable {shader result : Shader} {category : Category} {supplied : Option VariableId}
  {gathering : Gathering}

/-- Only gathering changes the registry. -/
theorem gathered_invariance (step : LoweringStep shader category supplied gathering result) :
    result.invariance = step.gathered.invariance :=
  step.invariance.trans (Shader.thread_invariance step.threads)

/-- Lowering a category registers fields of its two structs only. -/
theorem hasField_of_ne (step : LoweringStep shader category supplied gathering result)
    (only : supplied ≠ none → category.layoutRules = none) {struct : TypeId}
    (other : category ≠ .textures → supplied = none →
      struct ≠ gathering.internal ∧ struct ≠ gathering.external) (position : Nat) :
    result.invariance.hasField struct position = shader.invariance.hasField struct position := by
  obtain ⟨gather⟩ := Shader.gather_inv step.gathers
  rw [step.gathered_invariance]
  exact gather.hasField_of_ne only other position

/-- The fields of old structs stay as they were. -/
theorem hasField_old (step : LoweringStep shader category supplied gathering result)
    (only : supplied ≠ none → category.layoutRules = none) {struct : TypeId}
    (old : struct.index < shader.program.tables.types.size) (position : Nat) :
    result.invariance.hasField struct position = shader.invariance.hasField struct position := by
  refine step.hasField_of_ne only (fun _ unsupplied => ?_) position
  subst unsupplied
  obtain ⟨gather⟩ := Shader.gather_inv step.gathers
  constructor
  · rintro rfl
    exact Nat.not_lt.mpr gather.internal_new old
  · rintro rfl
    exact Nat.not_lt.mpr gather.external_after old

/-- The qualifiers of the variables are on the fields of both structs, also later, if nothing later
changes what is registered for them. -/
theorem carried (step : LoweringStep shader category none gathering result)
    (known : shader.FieldsKnown) {later : Shader}
    (evolves : result.program.tables.Evolves later.program.tables)
    (same : ∀ {struct : TypeId}, struct.index < result.program.tables.types.size →
      ∀ position, later.invariance.hasField struct position =
        result.invariance.hasField struct position) :
    Carried shader.invariance.hasVariable shader later category gathering.internal
      gathering.external := by
  obtain ⟨gather⟩ := Shader.gather_inv step.gathers
  obtain ⟨-, fields, struct, -⟩ := gather.middle_fields
  have toLater := step.gathered_evolves.trans evolves
  have sameLater {struct : TypeId}
      (inside : struct.index < step.gathered.program.tables.types.size) (position : Nat) :
      later.invariance.hasField struct position =
        step.gathered.invariance.hasField struct position := by
    rw [same (Nat.lt_of_lt_of_le inside step.gathered_evolves.size_types),
      step.gathered_invariance]
  have insideMiddle := Tables.index_lt_of_getElem? struct
  have inside := Nat.lt_of_lt_of_le insideMiddle gather.middle_evolves.size_types
  -- The struct is new, so nothing was registered for it.
  have ofMembers (position : Nat) : gather.registry.hasField gathering.internal position = true ↔
      ∃ id, (shader.claimed category none)[position]? = some id ∧
        shader.invariance.hasVariable id = true := by
    rw [gather.registry_hasField, known.hasField gather.internal_new, Shader.claimed,
      ← gather.members]
    simp
  rcases gather.bridge_registry with ⟨alike, sameRegistry⟩ |
    ⟨rules, others, placements, grown, hasRules, fieldsOk, placesOk, fromGrown, new, external,
      registry⟩
  · refine ⟨gather.internal_new, gather.external_after, fun position => ?_,
      fun different => absurd alike different⟩
    rw [sameLater inside, sameRegistry, ofMembers]
  · have different : gathering.internal ≠ gathering.external := by
      intro equal
      rw [← equal] at new
      exact Nat.not_lt.mpr new insideMiddle
    have sameInternal (position : Nat) :
        later.invariance.hasField gathering.internal position =
          gather.registry.hasField gathering.internal position := by
      rw [sameLater inside, registry, Bool.eq_iff_iff, Invariance.hasField_insertFields,
        or_iff_left fun own => different own.1]
    obtain ⟨name, sameStruct⟩ := Tables.fieldsOf_eq_ok_iff.mp fieldsOk
    obtain ⟨rfl, rfl⟩ := Ty.struct.inj (Option.some.inj (struct.symm.trans sameStruct))
    have placed := Layout.order_parts placesOk (fromGrown.trans toLater)
    refine ⟨gather.internal_new, gather.external_after,
      fun position => by rw [sameInternal, ofMembers], fun _ => ⟨rules, fields, _, hasRules,
        (gather.middle_evolves.trans toLater).types struct, toLater.types external, ?_,
        fun position => ?_⟩⟩
    · rw [List.forall₂_map_right_iff]
      exact placed.imp fun _ _ placed => placed.heldBy
    · have fresh : gather.registry.hasField gathering.external position = false := by
        rw [Bool.eq_false_iff, Ne, gather.registry_hasField,
          known.hasField gather.external_after]
        simp [different.symm]
      rw [sameLater (Tables.index_lt_of_getElem? external), registry,
        Invariance.hasField_insertFields, fresh, Layout.mem_invariantPlaces,
        Layout.sources_eq placed]
      simp [sameInternal]

/-- All registered fields are known still. -/
theorem fieldsKnown (step : LoweringStep shader category supplied gathering result)
    (only : supplied ≠ none → category.layoutRules = none) (known : shader.FieldsKnown) :
    result.FieldsKnown := by
  rintro ⟨struct, position⟩ registered
  by_contra unknown
  have there : result.invariance.hasField struct position = true :=
    List.contains_iff_mem.mpr registered
  rw [step.hasField_of_ne only (fun _ unsupplied => ?_) position,
    known.hasField (Nat.le_trans step.evolves.size_types (Nat.not_lt.mp unknown))] at there
  · exact Bool.false_ne_true there
  · subst unsupplied
    obtain ⟨gather⟩ := Shader.gather_inv step.gathers
    obtain ⟨internal, external⟩ := gather.structs_known
    have grows := step.gathered_evolves.size_types
    constructor
    · rintro rfl
      exact unknown (Nat.lt_of_lt_of_le internal grows)
    · rintro rfl
      exact unknown (Nat.lt_of_lt_of_le external grows)

/-- Lowering a category registers no variable. -/
theorem invariance_vars (step : LoweringStep shader category supplied gathering result) :
    result.invariance.vars = shader.invariance.vars := by
  obtain ⟨gather⟩ := Shader.gather_inv step.gathers
  rw [step.gathered_invariance, gather.invariance_vars]

end LoweringStep

/-- What became of the qualifiers of a category's variables: nothing, if it has no variables, or
they were carried into its structs. -/
inductive Carries (marked : VariableId → Bool) (before lowered : Shader) (category : Category) :
    Scoped TypeId → Prop where
  | nothing (unclaimed : before.claimed category none = []) :
      Carries marked before lowered category {}
  | structs {internal external : TypeId}
      (carried : Carried marked before lowered category internal external) :
      Carries marked before lowered category ⟨some internal, some external⟩

/-- The shader that a category is lowered in, when those ahead of it are done. -/
def Shader.Reaches (shader : Shader) (supplied : Option VariableId) (categories : List Category)
    (category : Category) (before : Shader) : Prop :=
  ∃ front back structs, categories = front ++ category :: back ∧
    Lowering.lowerCategories (fun _ => .ok ()) supplied front shader =
      (.ok (structs, before) : Result _)

namespace LoweringRun

variable {supplied : Option VariableId} {categories : List Category} {shader result : Shader}
  {structs : CategoryStructs}

/-- Nor does lowering several. -/
theorem invariance_vars (run : LoweringRun supplied categories shader structs result) :
    result.invariance.vars = shader.invariance.vars := by
  induction run with
  | done => rfl
  | passed _ _ inductionHypothesis => exact inductionHypothesis
  | lowered step _ inductionHypothesis => exact inductionHypothesis.trans step.invariance_vars

/-- Lowering leaves the fields of structs that were there. -/
theorem hasField_old (run : LoweringRun supplied categories shader structs result)
    {struct : TypeId} (old : struct.index < shader.program.tables.types.size) (position : Nat) :
    result.invariance.hasField struct position = shader.invariance.hasField struct position := by
  induction run with
  | done => rfl
  | passed _ _ inductionHypothesis => exact inductionHypothesis old
  | lowered step _ inductionHypothesis =>
    rw [inductionHypothesis (Nat.lt_of_lt_of_le old step.evolves.size_types),
      step.hasField_old Category.layoutRules_of_supplied old]

/-- Fields of a struct that is none of the new ones stay as they were. -/
theorem hasField_of_ne (run : LoweringRun supplied categories shader structs result)
    {struct : TypeId}
    (other : ∀ entry ∈ structs, entry.1 ≠ .textures → entry.1.suppliedTo supplied = none →
      entry.2.internal ≠ some struct ∧ entry.2.external ≠ some struct) (position : Nat) :
    result.invariance.hasField struct position = shader.invariance.hasField struct position := by
  induction run with
  | done => rfl
  | passed _ _ inductionHypothesis =>
    exact inductionHypothesis (List.forall_mem_cons.mp other).2
  | @lowered category categories shader next result structs gathering step _
      inductionHypothesis =>
    rw [List.forall_mem_cons] at other
    rw [inductionHypothesis other.2]
    refine step.hasField_of_ne Category.layoutRules_of_supplied
      (fun notTextures unsupplied => ?_) position
    obtain ⟨internal, external⟩ := other.1 notTextures unsupplied
    exact ⟨fun same => internal (congrArg some same.symm),
      fun same => external (congrArg some same.symm)⟩

/-- Every category of a run carries the qualifiers of its variables along. -/
theorem carries (run : LoweringRun supplied categories shader structs result)
    (known : shader.FieldsKnown) :
    ∀ entry ∈ structs, entry.1.suppliedTo supplied = none → ∃ before,
      shader.Reaches supplied categories entry.1 before ∧
        Carries shader.invariance.hasVariable before result entry.1 entry.2 := by
  induction run with
  | done => simp
  | @passed category categories shader result structs unclaimed rest inductionHypothesis =>
    refine List.forall_mem_cons.mpr ⟨fun unsupplied => ?_, fun entry member unsupplied => ?_⟩
    · refine ⟨shader, ⟨[], categories, [], rfl, rfl⟩, .nothing ?_⟩
      rw [Shader.claimed, List.filter_eq_nil_iff]
      intro id declared
      have refused := unclaimed id declared
      rw [unsupplied] at refused
      rw [Gathering.accepts_eq refused]
      exact Bool.false_ne_true
    · obtain ⟨before, ⟨front, back, earlier, rfl, lowers⟩, carries⟩ :=
        inductionHypothesis known entry member unsupplied
      rw [Lowering.lowerCategories_eq_ok_iff] at lowers
      exact ⟨before, ⟨category :: front, back, _, rfl,
        Lowering.lowerCategories_eq_ok_iff.mpr (.passed unclaimed lowers)⟩, carries⟩
  | @lowered category categories shader next result structs gathering step rest
      inductionHypothesis =>
    refine List.forall_mem_cons.mpr ⟨fun unsupplied => ?_, fun entry member unsupplied => ?_⟩
    · dsimp only at unsupplied
      have carried : Carried shader.invariance.hasVariable shader result category
          gathering.internal gathering.external := by
        rw [unsupplied] at step
        exact step.carried known rest.evolves rest.hasField_old
      exact ⟨shader, ⟨[], categories, [], rfl, rfl⟩, .structs carried⟩
    · obtain ⟨before, ⟨front, back, earlier, rfl, lowers⟩, carries⟩ :=
        inductionHypothesis (step.fieldsKnown Category.layoutRules_of_supplied known) entry member
          unsupplied
      rw [Lowering.lowerCategories_eq_ok_iff] at lowers
      have sameMarks : next.invariance.hasVariable = shader.invariance.hasVariable := by
        funext id
        rw [Invariance.hasVariable, Invariance.hasVariable, step.invariance_vars]
      exact ⟨before, ⟨category :: front, back, _, rfl,
        Lowering.lowerCategories_eq_ok_iff.mpr (.lowered step lowers)⟩, sameMarks ▸ carries⟩

end LoweringRun

/-- Invariance follows a variable into the structs of its category and nowhere else: the registered
variables are the same, each category without a supplied instance carries the qualifiers of the
variables that it claims at its turn, and for all other structs, those of textures and of a
supplied instance among them, the same fields are registered as before. -/
theorem Shader.lower_carries_invariance {shader lowered : Shader} {supplied : Option VariableId}
    {structs : CategoryStructs} (known : shader.FieldsKnown)
    (lowers : shader.lower supplied = .ok (structs, lowered)) :
    lowered.invariance.vars = shader.invariance.vars ∧
    structs.map Prod.fst = Category.all ∧
    (∀ entry ∈ structs, entry.1.suppliedTo supplied = none → ∃ before,
      shader.Reaches supplied Category.all entry.1 before ∧
        Carries shader.invariance.hasVariable before lowered entry.1 entry.2) ∧
    (∀ struct, (∀ entry ∈ structs, entry.1 ≠ .textures → entry.1.suppliedTo supplied = none →
        entry.2.internal ≠ some struct ∧ entry.2.external ≠ some struct) →
      ∀ position, lowered.invariance.hasField struct position =
        shader.invariance.hasField struct position) := by
  have run := Lowering.lowerCategories_inv lowers
  exact ⟨run.invariance_vars, run.structs_categories, run.carries known,
    fun _ => run.hasField_of_ne⟩

/-- A vertex shader with an invariant output that is an array, next to the position. -/
def Shader.shimmering : Shader where
  program := {
    tables := {
      stage := .vertex
      types := (predefinedTypes ++ [Ty.array .float 2]).toArray
      vars := #[
        { name := ⟨"glow", .shaderInterface⟩, type := ⟨21⟩, decorations := [.output],
          scope := .global },
        { name := ⟨"gl_Position", .shaderInterface⟩, type := .vec4, builtIn := some .position,
          scope := .global }]
      functions := #[.named "main" [] .void .notApplicable] }
    globals := [.var ⟨0⟩, .var ⟨1⟩,
      .definition ⟨0⟩ [.assign (.var ⟨1⟩) (.construct .vec4 [.index (.var ⟨0⟩) (.int 1)])]] }
  invariance := { vars := [⟨0⟩] }

/-- The elements of the output of `Shader.shimmering` are invariant fields, behind the position that
is moved ahead of them. -/
theorem Shader.lower_carries_invariance_shimmering : shimmering.FieldsKnown ∧
    ∃ structs lowered before internal external, shimmering.lower none = .ok (structs, lowered) ∧
      (.vertexOut, ⟨some internal, some external⟩) ∈ structs ∧ external ≠ internal ∧
      shimmering.Reaches none Category.all .vertexOut before ∧
      Carried shimmering.invariance.hasVariable before lowered .vertexOut internal external ∧
      ((List.range 4).map (lowered.invariance.hasField external)) = [false, true, true, false] := by
  have known : shimmering.FieldsKnown := by simp [FieldsKnown, shimmering]
  refine ⟨known, ?_⟩
  obtain ⟨⟨structs, lowered⟩, lowers, found⟩ := Outcome.exists_ok_of_any
    (by decide +kernel : ((shimmering.lower none).toOption.any fun found =>
      found.1.contains (.vertexOut, ⟨some ⟨22⟩, some ⟨23⟩⟩) &&
        (List.range 4).map (found.2.invariance.hasField ⟨23⟩) == [false, true, true, false]) = true)
  simp only [Bool.and_eq_true, List.contains_iff_mem, beq_iff_eq] at found
  obtain ⟨-, -, each, -⟩ := lower_carries_invariance known lowers
  obtain ⟨before, reaches, carries⟩ := each _ found.1 rfl
  cases carries with
  | structs carried =>
    exact ⟨structs, lowered, before, ⟨22⟩, ⟨23⟩, lowers, found.1, by decide, reaches, carried,
      found.2⟩

end ShaderPipeline
