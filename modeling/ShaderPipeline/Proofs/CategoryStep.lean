import ShaderPipeline.Proofs.Validity.Pruned

/-!
# One category after the other

Lowering a category of a grounded shader settles: either the category has no
variables and nothing happens, or they are gathered, threaded and pruned away, or
the entry point returns a value where it would have to return the outputs. What is
left is grounded again, so the next category can be lowered.
-/

namespace ShaderPipeline

namespace Tables

variable {tables : Tables}

/-- In an acyclic table, every known type either is a sampler or is none. -/
theorem Acyclic.exists_isSampler (acyclic : tables.Acyclic) {type : TypeId}
    (inside : type.index < tables.types.size) : ∃ answer, tables.isSampler type = .ok answer := by
  obtain ⟨index⟩ := type
  obtain ⟨extents, base, shape, short⟩ := acyclic.hasShape inside
  obtain ⟨entry, known, -⟩ := shape.base_known
  have baseOk := shape.baseOf_eq known (Nat.le_of_lt (Nat.lt_of_le_of_lt short inside))
  exact ⟨_, by simp only [Tables.isSampler, baseOk, Outcome.ok_bind]; rfl⟩

end Tables

/-- Every declared sampler is flat and not registered as invariant. -/
def Shader.SamplersReady (shader : Shader) : Prop :=
  ∀ id ∈ shader.program.globalVariables, ∀ {entry : Variable},
    shader.program.tables.vars[id.index]? = some entry →
    shader.program.tables.isSampler entry.type = .ok true →
      shader.invariance.hasVariable id = false ∧
        ∃ extents kind, shader.program.tables.IsSampler entry.type extents kind

/-- The variable is known and holds a struct. -/
def Tables.HoldsStruct (tables : Tables) (id : VariableId) : Prop :=
  ∃ entry name fields, tables.vars[id.index]? = some entry ∧
    tables.types[entry.type.index]? = some (.struct name fields)

/-- What a category needs of a shader to be lowered. -/
structure Shader.Suits (shader : Shader) (category : Category) (supplied : Option VariableId)
    (sizes : Nat → Prop) : Prop where
  grounded : shader.program.Grounded sizes
  filled : category.layoutRules ≠ none → ∀ size, sizes size → 0 < size
  samplers : category = .textures → shader.SamplersReady
  addresses : CategoryRun.Addresses shader category
  supplied : ∀ id, supplied = some id → shader.program.tables.HoldsStruct id

namespace Shader

variable {shader result : Shader} {category : Category} {supplied : Option VariableId}
  {sizes : Nat → Prop}

/-- A declared variable can be tested for a category. -/
theorem exists_claims (grounded : shader.program.Grounded sizes) (category : Category)
    (supplied : Option VariableId) {id : VariableId}
    (declared : id ∈ Gathering.declaredIn shader.program.globals) :
    ∃ answer, category.claims shader.program.tables supplied id = .ok answer := by
  obtain ⟨entry, declarable⟩ := Validity.checkVariable_eq_ok_iff.mp
    ((Program.check_eq_ok_iff.mp grounded.valid).2 _ (Gathering.mem_declaredIn.mp declared))
  have found : shader.program.tables.variableAt id = .ok entry := by simpa using declarable.known
  cases category with
  | textures =>
    obtain ⟨answer, tested⟩ := Tables.Acyclic.exists_isSampler grounded.acyclic
      (grounded.closed.vars declarable.known)
    exact ⟨answer, by simp only [Category.claims, found, Outcome.ok_bind, tested]⟩
  | _ => exact ⟨_, by simp only [Category.claims, found, Outcome.ok_bind]; rfl⟩

/-- A category that suits a shader and claims a variable can be gathered. -/
theorem canGather (suits : shader.Suits category supplied sizes)
    (filled : shader.claimed category supplied ≠ []) :
    Gathering.CanGather shader.program.tables shader.invariance category supplied
      (shader.claimed category supplied) sizes := by
  cases supplied with
  | some id =>
    obtain ⟨entry, name, fields, known, struct⟩ := suits.supplied id rfl
    exact ⟨entry, name, fields, known, struct⟩
  | none =>
    refine ⟨filled, fun id member => ?_⟩
    obtain ⟨declared, accepted⟩ := List.mem_filter.mp member
    obtain ⟨answer, tested⟩ := exists_claims suits.grounded category none declared
    obtain rfl : answer = true := (Gathering.accepts_eq tested).symm.trans accepted
    obtain ⟨entry, known, sampler⟩ : ∃ entry, shader.program.tables.vars[id.index]? = some entry ∧
        (category = .textures → shader.program.tables.isSampler entry.type = .ok true) := by
      simp only [Category.claims, Outcome.bind_eq_ok_iff, Tables.variableAt_eq_ok_iff] at tested
      obtain ⟨entry, known, tested⟩ := tested
      exact ⟨entry, known, fun textures => by subst textures; exact tested⟩
    refine ⟨entry, known, fun textures => ?_⟩
    obtain ⟨free, extents, kind, short, base, shape, baseKnown⟩ :=
      suits.samplers textures id declared known (sampler textures)
    exact ⟨free, extents, kind, ⟨short, base, shape, baseKnown⟩,
      shape.sized suits.grounded.sized⟩

/-- Variables that can become fields are gathered, if their struct gets the external layout that it
needs. -/
theorem gather_of_can (orderly : shader.program.Orderly)
    (tested : ∀ id ∈ Gathering.declaredIn shader.program.globals, ∃ answer,
      category.claims shader.program.tables supplied id = .ok answer)
    (filled : shader.claimed category supplied ≠ [])
    (can : Gathering.CanGather shader.program.tables shader.invariance category supplied
      (shader.claimed category supplied) sizes)
    (bridged : ∀ {struct : TypeId} {declared : List Global} {middle : Tables}
      (registry : Invariance),
      Gathering.Internal shader.program.tables category (shader.claimed category supplied) supplied
        struct declared middle → Tables.Grows sizes shader.program.tables middle → middle.Sound →
      ∃ bridge after invariance,
        Gathering.bridge? middle registry category struct = .ok (bridge, after, invariance)) :
    ∃ gathering gathered, shader.gather category supplied = .ok (some gathering, gathered) := by
  obtain ⟨main, enters⟩ := orderly.enters
  obtain ⟨body, defined⟩ := enters.defined
  obtain ⟨entry, mainKnown, isMain⟩ := enters.isMain _ defined
  obtain ⟨found, foundOk, isSome⟩ := @Program.findMain_ok shader.program.tables
    (shader.program.globals.filter (Gathering.stays
      (category.claims shader.program.tables supplied))) fun member => by
    obtain ⟨entry, known, -⟩ := enters.isMain _
      (Program.mem_definitions.mpr (List.mem_filter.mp member).1)
    exact ⟨entry, known⟩
  obtain ⟨⟨place, main⟩, rfl⟩ := Option.isSome_iff_exists.mp (isSome ⟨main, body, entry,
    List.mem_filter.mpr ⟨Program.mem_definitions.mp defined, rfl⟩, mainKnown, isMain.mpr rfl⟩)
  obtain ⟨struct, declared, middle, registry, internalOk, internal, grows, middleSound⟩ :=
    Gathering.internalStruct_run orderly.sound orderly.closed can
  obtain ⟨bridge, after, invariance, bridgeOk⟩ := bridged registry internal grows middleSound
  exact gather_some tested orderly.onceVariables filled foundOk internalOk bridgeOk

/-- The variables of a category are gathered, if there are any. -/
theorem gather_ok (suits : shader.Suits category supplied sizes)
    (only : supplied.isSome = true → category = .suppliedUniforms) :
    (shader.claimed category supplied = [] ∧ shader.gather category supplied = .ok (none, shader)) ∨
      ∃ gathering gathered, shader.gather category supplied = .ok (some gathering, gathered) := by
  have grounded := suits.grounded
  have tested : ∀ id ∈ Gathering.declaredIn shader.program.globals, ∃ answer,
      category.claims shader.program.tables supplied id = .ok answer :=
    fun id declared => exists_claims grounded category supplied declared
  by_cases none : shader.claimed category supplied = []
  · exact .inl ⟨none, gather_none tested grounded.onceVariables none⟩
  · refine .inr (gather_of_can grounded.toOrderly tested none (canGather suits none)
      fun registry internal grows middleSound => ?_)
    unfold Gathering.bridge?
    split
    case h_2 => exact ⟨_, _, _, rfl⟩
    case h_1 rules hasRules =>
      -- A supplied instance is never given another layout.
      have unsupplied : supplied = Option.none := by
        cases supplied with
        | none => rfl
        | some id => simp [only rfl, Category.layoutRules] at hasRules
      subst unsupplied
      obtain ⟨fields, known, isFields⟩ := internal.isFields
      have someFields : fields ≠ [] := by
        rintro rfl
        exact none (List.forall₂_nil_right_iff.mp isFields)
      obtain ⟨⟨bridge, after, invariance⟩, made⟩ := Layout.createBridge_ok registry rules
        middleSound (grows.acyclic grounded.acyclic) (grows.sized grounded.sized)
        (suits.filled (by simp [hasRules])) known someFields (category.structName .external)
      exact ⟨bridge, after, invariance, made⟩

end Shader

namespace CategoryRun

variable {shader result : Shader} {category : Category} {supplied : Option VariableId}
  (run : CategoryRun shader category supplied result)

/-- No variable is registered or taken out of the registry. -/
theorem result_invariance (run : CategoryRun shader category supplied result) :
    result.invariance.vars = shader.invariance.vars := by
  rw [run.thread.invariance, run.gather.invariance_vars]

/-- The gathered variables are not declared any more. -/
theorem unneeded : result.program.Unneeded run.gathering.members.contains := by
  intro id gathered
  have member := List.contains_iff_mem.mp gathered
  obtain ⟨entry, declarable⟩ := run.member_declarable member
  exact ⟨fun declared => (run.mem_globalVariables.mp declared).2 member, entry,
    run.extended.vars declarable.known, declarable.scope⟩

end CategoryRun

/-- One category, gathered, threaded and pruned. -/
structure StepRun (shader : Shader) (category : Category) (supplied : Option VariableId)
    (result : Shader) where
  threaded : Shader
  run : CategoryRun shader category supplied threaded
  refs : List VariableId
  marks : List VariableId
  pruned : (threaded.program.retire run.gathering.members.contains).Pruned result.program refs marks
  invariance : result.invariance = threaded.invariance
  reflection : result.reflection = threaded.reflection

namespace StepRun

variable {shader result : Shader} {category : Category} {supplied : Option VariableId}
  {sizes : Nat → Prop}

/-- The gathered category. -/
def gathering (step : StepRun shader category supplied result) : Gathering := step.run.gathering

/-- Lowering a category that suits a grounded program leaves a grounded one. -/
theorem result_grounded (step : StepRun shader category supplied result)
    (suits : shader.Suits category supplied sizes) : result.program.Grounded sizes :=
  step.pruned.grounded
    (step.run.result_grounded suits.grounded suits.filled suits.addresses) step.run.unneeded

/-- Lowering any category but the textures leaves addresses as they should be. -/
theorem result_addressed (step : StepRun shader category supplied result)
    (suits : shader.Suits category supplied sizes) (notTextures : category ≠ .textures)
    (addressed : shader.program.Addressed) : result.program.Addressed :=
  step.pruned.addressed
    (step.run.result_addressed suits.grounded suits.filled notTextures addressed)

/-- Every type is still there. -/
theorem types (step : StepRun shader category supplied result) {index : Nat} {type : Ty}
    (known : shader.program.tables.types[index]? = some type) :
    result.program.tables.types[index]? = some type := by
  rw [step.pruned.tables_eq, Tables.retire_types]
  exact step.run.extended.types known

/-- Every variable is still there, perhaps out of use. -/
theorem vars (step : StepRun shader category supplied result) {index : Nat} {entry : Variable}
    (known : shader.program.tables.vars[index]? = some entry) :
    ∃ gone, result.program.tables.vars[index]? = some (entry.retire gone) := by
  rw [step.pruned.tables_eq, Tables.getElem?_retire, step.run.extended.vars known]
  exact ⟨_, rfl⟩

/-- No global variable is declared that was not before. -/
theorem globalVariables (step : StepRun shader category supplied result) :
    result.program.globalVariables ⊆ shader.program.globalVariables := fun _ declared =>
  (step.run.mem_globalVariables.mp (step.pruned.mem_globalVariables.mp declared).1).1

end StepRun

/-- The entry point of the shader returns a value. -/
def Shader.ReturnsValue (shader : Shader) : Prop :=
  ∃ main entry, shader.program.Enters main ∧
    shader.program.tables.functions[main.index]? = some entry ∧ entry.returnType ≠ .void

/-- A gathered category is threaded and pruned, if all that pruning looks up is known, unless the
entry point returns a value where it would have to return the outputs. -/
theorem Shader.install_of_known {shader gathered : Shader} {category : Category}
    {supplied : Option VariableId} {gathering : Gathering} (orderly : shader.program.Orderly)
    (only : supplied.isSome = true → category = .suppliedUniforms)
    (gather : GatherRun shader category supplied gathering gathered)
    (known : ∀ {threaded : Shader} (run : CategoryRun shader category supplied threaded),
      Prune.Known (threaded.program.retire run.gathering.members.contains)) :
    Outcome.Settles (category.isOut = true ∧ shader.ReturnsValue) (.nonVoidMain category)
      (gathered.install gathering (gathered.program.dependents gathering.members.contains))
      fun result => ∃ step : StepRun shader category supplied result,
        step.gathering = gathering ∧ step.run.gathered = gathered := by
  obtain ⟨enters, fits⟩ := gather.fits orderly only
  rcases thread_run fits with ⟨refused, shape, -, entry, known, value⟩ |
    ⟨threaded, threads, initials, ⟨thread⟩⟩
  · rw [gather.sameCategory] at refused shape
    refine .inl ⟨by simp only [install, refused]; rfl, Category.isOut_eq_true shape,
      gather.main, entry, enters, ?_, value⟩
    obtain ⟨body, defined⟩ := enters.defined
    obtain ⟨other, otherKnown, -⟩ := enters.isMain _ defined
    obtain ⟨-, grows, -⟩ := gather.internal orderly.sound orderly.closed
    obtain rfl : other = entry := by
      simpa [(grows.toExtends.trans gather.extended).functions otherKnown] using known
    exact otherKnown
  · let run : CategoryRun shader category supplied threaded :=
      ⟨orderly, only, gathering, gathered, initials, gather, thread⟩
    have eliminated := @Tables.eliminateAll_eq threaded.program.tables gathering.members
      fun id member => by
        obtain ⟨entry, declarable⟩ := run.member_declarable member
        exact (Array.getElem?_eq_some_iff.mp (run.extended.vars declarable.known)).1
    obtain ⟨pruned, refs, marks, prunes, isPruned⟩ := Program.prune_ok (known run)
    rw [Program.retire] at prunes
    refine .inr ⟨{ threaded with program := pruned }, ?_,
      ⟨threaded, run, refs, marks, isPruned, rfl, rfl⟩, rfl, rfl⟩
    simp only [install, threads, Outcome.ok_bind, eliminated, prunes, Outcome.pure_eq_ok, run]

/-- A gathered category of a grounded shader is threaded and pruned, unless the entry point returns a
value where it would have to return the outputs. -/
theorem Shader.install_settles {shader gathered : Shader} {category : Category}
    {supplied : Option VariableId} {gathering : Gathering} {sizes : Nat → Prop}
    (suits : shader.Suits category supplied sizes)
    (only : supplied.isSome = true → category = .suppliedUniforms)
    (gather : GatherRun shader category supplied gathering gathered) :
    Outcome.Settles (category.isOut = true ∧ shader.ReturnsValue) (.nonVoidMain category)
      (gathered.install gathering (gathered.program.dependents gathering.members.contains))
      fun result => ∃ step : StepRun shader category supplied result,
        step.gathering = gathering := by
  refine (install_of_known suits.grounded.toOrderly only gather fun run => ?_).imp
    fun _ ⟨step, isGathering, _⟩ => ⟨step, isGathering⟩
  exact (run.result_grounded suits.grounded suits.filled suits.addresses).known _

/-- A supplied instance concerns the category of supplied uniforms only. -/
theorem Category.suppliedTo_only {category : Category} {supplied : Option VariableId} :
    (category.suppliedTo supplied).isSome = true → category = .suppliedUniforms := by
  unfold Category.suppliedTo
  split
  · exact fun _ => ‹_›
  · simp

/-- Lowering a category passes it over, goes through all its steps, or refuses an entry point that
returns a value where it would have to return the outputs. -/
theorem Lowering.lowerCategory_settles {shader : Shader} {category : Category}
    {supplied : Option VariableId} {sizes : Nat → Prop}
    (suits : shader.Suits category (category.suppliedTo supplied) sizes) :
    Outcome.Settles (category.isOut = true ∧ shader.ReturnsValue) (.nonVoidMain category)
      (lowerCategory (fun _ => .ok ()) supplied shader category) fun out =>
        (out = ({}, shader) ∧ shader.claimed category (category.suppliedTo supplied) = []) ∨
          ∃ step : StepRun shader category (category.suppliedTo supplied) out.2,
            out.1 = step.gathering.structs := by
  have only := @Category.suppliedTo_only category supplied
  simp only [lowerCategory, lift_eq_self]
  rcases Shader.gather_ok suits only with ⟨empty, passed⟩ | ⟨gathering, gathered, gathers⟩
  · rw [passed]
    exact .ok (.inl ⟨rfl, empty⟩)
  · obtain ⟨gather⟩ := Shader.gather_inv gathers
    simp only [gathers, Outcome.ok_bind]
    refine (Shader.install_settles suits only gather).bind fun result ⟨step, isGathering⟩ => ?_
    have valid : audit (fun _ => .ok ()) result.program = (.ok () : Result Unit) := by
      simp only [audit, (step.result_grounded suits).valid]
      rfl
    rw [valid]
    exact .ok (.inr ⟨step, by rw [isGathering]⟩)

end ShaderPipeline
