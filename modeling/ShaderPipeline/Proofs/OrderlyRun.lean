import ShaderPipeline.Proofs.CategoryStep
import ShaderPipeline.Proofs.LoweringRun

/-!
# Orderly programs stay orderly

A category that was lowered leaves an orderly program, so that what is known
about one category holds of all of them in turn. Nothing is asked of the types
but that they are known: a type that contains itself is never taken apart, or
lowering would have failed.
-/

namespace ShaderPipeline

namespace Tables

variable {tables before after : Tables} {sizes : Nat → Prop}

/-- Tables stay closed when new types are made. -/
theorem Grows.closed (grows : Grows sizes before after) (closed : before.Closed) :
    after.Closed where
  parts there part member := by
    rcases grows.cases there with old | ⟨-, novel⟩
    · exact Nat.lt_of_lt_of_le (closed.parts old part member) grows.size_types
    · exact Nat.lt_trans (novel.parts part member) (Array.getElem?_eq_some_iff.mp there).1
  vars there := by
    rw [grows.sameVars] at there
    exact Nat.lt_of_lt_of_le (closed.vars there) grows.size_types

/-- The parameters and the return types of all functions are known. -/
structure FunctionsClosed (tables : Tables) : Prop where
  params : ∀ {index : Nat} {function : Function}, tables.functions[index]? = some function →
    ∀ param ∈ function.params, param.variableId.index < tables.vars.size
  returns : ∀ {index : Nat} {function : Function}, tables.functions[index]? = some function →
    function.returnType.index < tables.types.size

/-- Functions refer to known variables and types if each of them does. -/
theorem functionsClosed_of_forall (all : ∀ function ∈ tables.functions,
    (∀ param ∈ function.params, param.variableId.index < tables.vars.size) ∧
      function.returnType.index < tables.types.size) : tables.FunctionsClosed where
  params known := (all _ (Array.mem_of_getElem? known)).1
  returns known := (all _ (Array.mem_of_getElem? known)).2

instance (tables : Tables) : Decidable tables.FunctionsClosed :=
  decidable_of_iff (∀ function ∈ tables.functions,
    (∀ param ∈ function.params, param.variableId.index < tables.vars.size) ∧
      function.returnType.index < tables.types.size)
    ⟨functionsClosed_of_forall, fun closed function member => by
      obtain ⟨index, known⟩ := Array.mem_iff_getElem?.mp member
      exact ⟨closed.params known, closed.returns known⟩⟩

end Tables

/-- A bridge comes with types that are made of earlier ones, whatever their extents, and then with
variables and a function. -/
theorem Layout.createBridge_grows {tables after : Tables} {invariance registry : Invariance}
    {rules : LayoutRules} {struct : TypeId} {name : Name} {bridge : Option Bridge}
    (sound : tables.Sound) (closed : tables.Closed)
    (made : tables.createBridge invariance rules struct name = .ok (bridge, after, registry)) :
    ∃ grown : Tables, Tables.Grows (fun _ => True) tables grown ∧ grown.Sound ∧
      grown.Adds after := by
  rcases (createBridge_inv made).2 with ⟨-, rfl, -⟩ |
    ⟨_, fields, placements, grown, -, fieldsOk, placesOk, -, adds, -⟩
  · exact ⟨after, .refl _ _, sound, .refl _⟩
  · obtain ⟨structName, known⟩ := Tables.fieldsOf_eq_ok_iff.mp fieldsOk
    obtain ⟨toGrown, holds⟩ := placeFields_grows sound tables.sized_true placesOk
    have novel : grown.Novel (fun _ => True) grown.types.size
        (.struct name ((order rules placements).map Placement.field)) := by
      intro field member
      obtain ⟨placement, own, rfl⟩ := List.mem_map.mp member
      refine (holds placement (mem_order.mp own)).holds.index_lt fun field inside => ?_
      exact Nat.lt_of_lt_of_le (closed.parts known _ (List.mem_map_of_mem inside))
        toGrown.size_types
    have toStruct := Tables.addStruct_grows novel
    exact ⟨_, toGrown.toGrows.trans toStruct,
      toStruct.sound (toGrown.sound sound) fun member => .inl member, adds⟩

namespace GatherRun

variable {shader result : Shader} {category : Category} {supplied : Option VariableId}
  {gathering : Gathering}

/-- Gathering adds types that are made of known ones, then variables and functions. -/
theorem grown_closed (run : GatherRun shader category supplied gathering result)
    (sound : shader.program.tables.Sound) (closed : shader.program.tables.Closed) :
    ∃ grown : Tables, grown.Sound ∧ grown.Closed ∧ grown.Adds result.program.tables := by
  obtain ⟨-, grows, middleSound⟩ := run.internal sound closed
  have middleClosed := grows.closed closed
  rcases run.bridge_cases with ⟨_, -, made⟩ | ⟨-, same, -⟩
  · obtain ⟨grown, toGrown, grownSound, adds⟩ :=
      Layout.createBridge_grows middleSound middleClosed made
    exact ⟨grown, grownSound, toGrown.closed middleClosed, adds⟩
  · exact ⟨run.middle, middleSound, middleClosed, same ▸ .refl _⟩

end GatherRun

namespace CategoryRun

variable {shader result : Shader} {category : Category} {supplied : Option VariableId}

/-- What the bodies of the result call is no entry point. -/
theorem result_calls (run : CategoryRun shader category supplied result)
    {definition : FunctionId × Block} (defined : definition ∈ result.program.definitions)
    {callee : FunctionId} (called : callee ∈ Block.calls definition.2) :
    Helps result.program.tables callee := by
  have plain (body : Block) :
      Block.Every (Expr.Uses (fun _ => True) (fun _ => True) fun _ => True) body :=
    fun _ _ node _ => by cases node <;> trivial
  have uses := @result_uses _ _ _ _ run (fun _ => True) (fun _ _ => trivial)
    (fun {function body} defined _ => Block.every_uses (fun _ _ => trivial)
      (fun callee called => by
        obtain ⟨helps, known⟩ := called_helps run.orderly defined called
        exact helps.extends run.extended known) (plain body))
    (fun {function body} defined _ => run.subst_uses defined (plain body) fun _ _ _ => trivial)
    definition defined
  obtain ⟨args, helps⟩ := uses.call called
  exact helps

/-- Lowering a category keeps the tables sound and closed. -/
theorem result_closed (run : CategoryRun shader category supplied result) :
    result.program.tables.Sound ∧ result.program.tables.Closed := by
  obtain ⟨grown, sound, closed, adds⟩ :=
    run.gather.grown_closed run.orderly.sound run.orderly.closed
  have extended := adds.trans run.threaded_adds
  refine ⟨extended.sound sound, fun there part member => ?_, run.result_vars⟩
  rw [extended.sameTypes] at there ⊢
  exact closed.parts there part member

/-- The parameters and the return types of all functions are known. -/
theorem result_functions (run : CategoryRun shader category supplied result)
    (functions : shader.program.tables.FunctionsClosed) :
    result.program.tables.FunctionsClosed where
  params := run.result_params functions.params
  returns {index function} known := by
    have old {source : Function} {id : Nat}
        (sourceKnown : shader.program.tables.functions[id]? = some source) :
        source.returnType.index < result.program.tables.types.size :=
      Nat.lt_of_lt_of_le (functions.returns sourceKnown) run.extended.size_types
    rcases run.function_cases known with same | ⟨conversion, name, first, rfl, -⟩ |
      ⟨id, source, tables, news, sourceKnown, replaced, -⟩
    · exact old same
    · exact Tables.index_lt_of_getElem? (run.result_closed.1.predefined rfl)
    · have unchanged := old sourceKnown
      cases replaced with
      | returning =>
        obtain ⟨_, _, external⟩ := run.external_known
        exact Tables.index_lt_of_getElem? external
      | helper | fieldParams | textureParams | indexParam | structParam => exact unchanged

end CategoryRun

/-- A category keeps the parameters and the return types of functions known. -/
theorem StepRun.result_functions {shader result : Shader} {category : Category}
    {supplied : Option VariableId} (step : StepRun shader category supplied result)
    (functions : shader.program.tables.FunctionsClosed) :
    result.program.tables.FunctionsClosed := by
  have threaded := step.run.result_functions functions
  rw [step.pruned.tables_eq]
  exact ⟨fun known => by simpa using threaded.params known, fun known => threaded.returns known⟩

/-- What a category leaves of an orderly program is orderly, if it is valid. -/
theorem StepRun.result_orderly {shader result : Shader} {category : Category}
    {supplied : Option VariableId} (step : StepRun shader category supplied result)
    (valid : result.program.check = .ok ()) : result.program.Orderly := by
  obtain ⟨sound, closed⟩ := step.run.result_closed
  exact step.pruned.orderly valid sound closed (fun _ member => step.run.result_prototypes member)
    step.run.globalVariables_once step.run.result_once
    fun _ defined _ called => step.run.result_calls defined called

namespace StepRun

variable {shader result : Shader} {category : Category} {supplied : Option VariableId}
  (step : StepRun shader category supplied result)

/-- Pruning puts variables out of use and changes nothing else in the tables. -/
theorem pruning_evolves : step.threaded.program.tables.Evolves result.program.tables := by
  rw [step.pruned.tables_eq]
  exact Tables.retire_evolves _

/-- After gathering, the tables evolve to those of the result. -/
theorem gathered_evolves :
    step.run.gathered.program.tables.Evolves result.program.tables :=
  step.run.threaded_adds.evolves.trans step.pruning_evolves

/-- So do the tables of the shader. -/
theorem evolves (step : StepRun shader category supplied result) :
    shader.program.tables.Evolves result.program.tables :=
  step.run.gather.evolves.trans step.gathered_evolves

end StepRun

/-- The steps of lowering a category of an orderly program, with all that is known about them. -/
theorem LoweringStep.exists_stepRun {shader result : Shader} {category : Category}
    {supplied : Option VariableId} {gathering : Gathering}
    (step : LoweringStep shader category supplied gathering result)
    (orderly : shader.program.Orderly)
    (only : supplied.isSome = true → category = .suppliedUniforms) :
    ∃ run : StepRun shader category supplied result,
      run.gathering = gathering ∧ run.run.gathered = step.gathered := by
  obtain ⟨gather⟩ := Shader.gather_inv step.gathers
  obtain ⟨-, fits⟩ := gather.fits orderly only
  rcases Shader.thread_run fits with ⟨refused, -⟩ | ⟨threaded, threads, initials, ⟨thread⟩⟩
  · rw [step.threads] at refused
    exact absurd refused.symm (by simp)
  · obtain rfl : step.threaded = threaded := Except.ok.inj (step.threads.symm.trans threads)
    obtain ⟨refs, marks, pruned, -⟩ := Program.prune_inv step.prunes
    exact ⟨⟨step.threaded, ⟨orderly, only, gathering, step.gathered, initials, gather, thread⟩,
      refs, marks, pruned, step.invariance, step.reflection⟩, rfl, rfl⟩

end ShaderPipeline
