import ShaderPipeline.Proofs.LoweringRun

/-!
# Types are kept

No operation takes a type away or changes one. `KeepsTypes` says more of the
tables before and after: if every shared type had one identity it still does, the
texture environment of an image kind stays the same one, and a new one is made as
it should be. Whatever makes types keeps types, and so do the passes, which make
types and otherwise change only variables and functions. `WellShared` is what the
tables of an empty shader promise of look-ups and what is kept along with the types.
-/

namespace ShaderPipeline

namespace Tables

variable {tables before middle after : Tables}

/-- All types stay, no shared type gets a second identity, and no texture environment is replaced
or made up. Types that are not of a kind that is made were there before. -/
structure KeepsTypes (before after : Tables) : Prop where
  types : ∀ {index : Nat} {type : Ty}, before.types[index]? = some type →
    after.types[index]? = some type
  news : ∀ {index : Nat} {type : Ty}, after.types[index]? = some type →
    before.types[index]? = some type ∨ type.isMade = true
  canonical : before.Canonical → after.Canonical
  envs : ∀ {kind : ImageKind} {id : TypeId}, before.textureEnvs.lookup kind = some id →
    after.textureEnvs.lookup kind = some id
  newEnvs : ∀ {kind : ImageKind} {id : TypeId}, (kind, id) ∈ after.textureEnvs →
    (kind, id) ∈ before.textureEnvs ∨ after.IsEnv kind id

/-- What touches neither the types nor the texture environments keeps them. -/
theorem KeepsTypes.of_same (sameTypes : after.types = before.types)
    (sameEnvs : after.textureEnvs = before.textureEnvs) : before.KeepsTypes after where
  types known := sameTypes ▸ known
  news there := .inl (sameTypes ▸ there)
  canonical canonical := canonical.congr sameTypes
  envs found := sameEnvs ▸ found
  newEnvs member := .inl (sameEnvs ▸ member)

/-- Tables that stay as they are keep their types. -/
theorem KeepsTypes.refl (tables : Tables) : tables.KeepsTypes tables := .of_same rfl rfl

/-- Types that are kept in two steps are kept. -/
theorem KeepsTypes.trans (first : before.KeepsTypes middle) (second : middle.KeepsTypes after) :
    before.KeepsTypes after where
  types known := second.types (first.types known)
  news there := by
    rcases second.news there with inMiddle | isMade
    · exact first.news inMiddle
    · exact .inr isMade
  canonical canonical := second.canonical (first.canonical canonical)
  envs found := second.envs (first.envs found)
  newEnvs member := by
    rcases second.newEnvs member with inMiddle | isEnv
    · exact (first.newEnvs inMiddle).imp_right (·.mono second.types)
    · exact .inr isEnv

/-- Adding variables and functions keeps the types. -/
theorem Adds.keepsTypes (adds : before.Adds after) : before.KeepsTypes after :=
  .of_same adds.sameTypes adds.sameEnvs

/-- So does making types. -/
theorem MakesTypes.keepsTypes (makes : before.MakesTypes after) : before.KeepsTypes after where
  types := makes.registers.types
  news := makes.entry
  canonical := makes.canonical
  envs := makes.registers.envs
  newEnvs := makes.registers.newEnvs

/-! ## Single operations -/

/-- So does changing a variable. -/
theorem updateVariable_keepsTypes {id : VariableId} {change : Variable → Variable}
    (made : tables.updateVariable id change = .ok after) : tables.KeepsTypes after := by
  unfold updateVariable at made
  split at made
  · obtain rfl := Except.ok.inj made
    exact .of_same rfl rfl
  · cases made

/-- A bridge comes with the types of the external fields, their struct and its conversion. -/
theorem createBridge_keepsTypes {invariance registry : Invariance} {rules : LayoutRules}
    {struct : TypeId} {name : Name} {bridge : Option Bridge}
    (made : tables.createBridge invariance rules struct name = .ok (bridge, after, registry)) :
    tables.KeepsTypes after := by
  obtain ⟨-, ⟨-, rfl, -⟩ | ⟨_, _, _, grown, -, -, placesOk, -, adds, -⟩⟩ :=
    Layout.createBridge_inv made
  · exact .refl after
  · exact ((Layout.placeFields_makes placesOk).struct _ _).keepsTypes.trans adds.keepsTypes

end Tables

/-! ## Passes -/

/-- So does pruning a program. -/
theorem Program.prune_keepsTypes {program result : Program}
    (prunes : program.prune = .ok result) : program.tables.KeepsTypes result.tables := by
  obtain ⟨_, _, pruned, -⟩ := Program.prune_inv prunes
  rw [pruned.tables]
  exact .of_same rfl rfl

variable {shader result : Shader} {supplied : Option VariableId}

/-- So does lowering one category. -/
theorem LoweringStep.keepsTypes {category : Category} {gathering : Gathering}
    (step : LoweringStep shader category supplied gathering result) :
    shader.program.tables.KeepsTypes result.program.tables := by
  obtain ⟨gather⟩ := Shader.gather_inv step.gathers
  obtain ⟨made, makes, adds⟩ := gather.result_adds
  obtain ⟨threads, -⟩ := Shader.thread_adds step.threads
  have toGathered := (gather.middle_makes.trans makes).keepsTypes.trans adds.keepsTypes
  have toThreaded := toGathered.trans threads.keepsTypes
  have toRetired : step.threaded.program.tables.KeepsTypes
      (step.threaded.program.tables.retire gathering.members.contains) := .of_same rfl rfl
  exact (toThreaded.trans toRetired).trans (Program.prune_keepsTypes step.prunes)

/-- So does lowering several. -/
theorem LoweringRun.keepsTypes {categories : List Category} {structs : CategoryStructs}
    (run : LoweringRun supplied categories shader structs result) :
    shader.program.tables.KeepsTypes result.program.tables := by
  induction run with
  | done shader => exact .refl _
  | passed _ _ inductionHypothesis => exact inductionHypothesis
  | lowered step _ inductionHypothesis => exact step.keepsTypes.trans inductionHypothesis

/-- So does lowering a shader. -/
theorem Shader.lower_keepsTypes {structs : CategoryStructs}
    (lowers : shader.lower supplied = .ok (structs, result)) :
    shader.program.tables.KeepsTypes result.program.tables :=
  (Lowering.lowerCategories_inv lowers).keepsTypes

/-! ## Tables as look-ups promise -/

namespace Tables

variable {tables before after : Tables} {kind : ImageKind} {id : TypeId}

/-- Shared types have one identity each, the type of sampling states is where it is expected, and
what is registered as a texture environment is one. -/
structure WellShared (tables : Tables) : Prop where
  canonical : tables.Canonical
  sampler : tables.types[TypeId.sampler.index]? = some .sampler
  envs : ∀ {kind : ImageKind} {id : TypeId}, (kind, id) ∈ tables.textureEnvs →
    tables.IsEnv kind id

/-- Where types are kept, each shared type still has one identity. -/
theorem KeepsTypes.wellShared (keeps : before.KeepsTypes after) (shared : before.WellShared) :
    after.WellShared where
  canonical := keeps.canonical shared.canonical
  sampler := keeps.types shared.sampler
  envs member := by
    rcases keeps.newEnvs member with old | isEnv
    · exact (shared.envs old).mono keeps.types
    · exact isEnv

/-- A table that is sound stays sound. -/
theorem KeepsTypes.sound (keeps : before.KeepsTypes after) (sound : before.Sound) : after.Sound where
  predefined known := keeps.types (sound.predefined known)
  inUse {_ type} there := by
    rcases keeps.news there with old | isMade
    · exact sound.inUse old
    · cases type with
      | eliminated => simp [Ty.isMade, Ty.isStruct, Ty.key?] at isMade
      | _ => rfl
  vectors there := by
    rcases keeps.news there with old | isMade
    · exact sound.vectors old
    · simp [Ty.isMade, Ty.isStruct, Ty.key?] at isMade
  envs member := by
    rcases keeps.newEnvs member with old | isEnv
    · exact (sound.envs old).mono keeps.types
    · exact isEnv

/-- The tables that a shader starts with are sound. -/
theorem sound_empty (stage : Stage) : ({ stage } : Tables).Sound := by
  cases stage <;> decide

/-- No predefined type is shared. -/
theorem wellShared_empty (stage : Stage) : ({ stage } : Tables).WellShared where
  canonical key first _ isFirst _ := by
    have plain : ∀ type ∈ predefinedTypes, type.key? = none := by decide
    have member : key.type ∈ predefinedTypes := by
      rw [List.getElem?_toArray] at isFirst
      exact List.mem_of_getElem? isFirst
    have none := plain _ member
    simp [TypeKey.key?_type] at none
  sampler := rfl
  envs member := absurd member List.not_mem_nil

/-- What is registered as a texture environment is one. -/
theorem WellShared.isEnv (shared : tables.WellShared)
    (registered : tables.textureEnvs.lookup kind = some id) : tables.IsEnv kind id := by
  obtain ⟨front, back, same, -⟩ := List.lookup_eq_some_iff.mp registered
  exact shared.envs (by simp [same])

/-- Asking again for a shared type changes nothing. -/
theorem WellShared.intern_eq (shared : tables.WellShared) {key : TypeKey}
    (known : tables.types[id.index]? = some key.type) : tables.intern key = (id, tables) := by
  have found := shared.canonical.find?_eq_some_iff.mpr known
  unfold intern
  split
  case h_1 other foundOther =>
    rw [found, Option.some.injEq] at foundOther
    rw [foundOther]
  case h_2 unknown =>
    rw [found] at unknown
    cases unknown

/-- Asking again for a texture environment changes nothing. -/
theorem textureEnv_eq (registered : tables.textureEnvs.lookup kind = some id) :
    tables.textureEnv kind = (id, tables) := by
  rw [textureEnv, registered]

end Tables

end ShaderPipeline
