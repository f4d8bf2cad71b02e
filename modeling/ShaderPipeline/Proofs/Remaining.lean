import ShaderPipeline.Proofs.LoweringRun

/-!
# What lowering leaves declared

What a category looks at in a variable is never changed, so a variable that it
did not claim it does not claim later. After a lowering no category claims a
variable that is still declared. So lowering again changes nothing, and what a
vertex or fragment shader still declares is constant or an interface variable
that the rules of its stage leave to the other side.
-/

namespace ShaderPipeline

/-! ## Claims that last -/

namespace Tables

variable {tables before after : Tables}

/-- The shape of a type stays the same while the tables evolve. -/
theorem Evolves.hasShape (evolves : before.Evolves after) {id base : TypeId} {extents : List Nat}
    (shape : before.HasShape id extents base) : after.HasShape id extents base := by
  induction shape with
  | base known plain => exact .base (evolves.types known) plain
  | array known _ inductionHypothesis => exact .array (evolves.types known) inductionHypothesis

/-- Whether a type is a sampler does not change. -/
theorem Evolves.isSampler (evolves : before.Evolves after) {type : TypeId} {answer : Bool}
    (tested : before.isSampler type = .ok answer) : after.isSampler type = .ok answer := by
  rw [isSampler_eq_ok_iff] at tested ⊢
  obtain ⟨extents, base, entry, shape, known, same⟩ := tested
  exact ⟨extents, base, entry, evolves.hasShape shape, evolves.types known, same⟩

end Tables

/-- What a category says about a variable it says of the variable later. -/
theorem Category.claims_evolves {category : Category} {before after : Tables}
    {supplied : Option VariableId} {id : VariableId} {answer : Bool}
    (evolves : before.Evolves after) (tested : category.claims before supplied id = .ok answer) :
    category.claims after supplied id = .ok answer := by
  simp only [claims, Outcome.bind_eq_ok_iff, Tables.variableAt_eq_ok_iff] at tested ⊢
  obtain ⟨entry, known, tested⟩ := tested
  obtain ⟨gone, later⟩ := evolves.vars known
  refine ⟨_, later, ?_⟩
  cases category with
  | textures => exact evolves.isSampler (by simpa using tested)
  | instanceIndex | mutableGlobals | suppliedUniforms | userUniforms | vertexIn | vertexOut
  | fragmentIn | fragmentOut | vertexInvocation | fragmentInvocation =>
    simpa [evolves.stage] using tested

/-! ## Shaders without pipeline state -/

/-- Every category is among all of them. -/
theorem Category.mem_all (category : Category) : category ∈ all := by
  cases category <;> decide

/-- No category claims a variable that is declared. -/
def Shader.Unclaimed (shader : Shader) (supplied : Option VariableId) : Prop :=
  ∀ category : Category, ∀ id ∈ shader.program.globalVariables,
    category.claims shader.program.tables (category.suppliedTo supplied) id = .ok false

namespace LoweringRun

variable {shader result : Shader} {supplied : Option VariableId} {categories : List Category}
  {structs : CategoryStructs}

/-- The tables only grow, and some variables go out of use. -/
theorem evolves (run : LoweringRun supplied categories shader structs result) :
    shader.program.tables.Evolves result.program.tables := by
  induction run with
  | done => exact .refl _
  | passed _ _ inductionHypothesis => exact inductionHypothesis
  | lowered step _ inductionHypothesis => exact step.evolves.trans inductionHypothesis

/-- What is declared at the end was at the start. -/
theorem globalVariables_subset (run : LoweringRun supplied categories shader structs result) :
    result.program.globalVariables ⊆ shader.program.globalVariables := by
  induction run with
  | done => exact List.Subset.refl _
  | passed _ _ inductionHypothesis => exact inductionHypothesis
  | lowered step _ inductionHypothesis =>
    exact List.Subset.trans inductionHypothesis fun id declared =>
      (step.mem_globalVariables declared).1

/-- A category that was processed claims nothing at the end. -/
theorem unclaimed (run : LoweringRun supplied categories shader structs result) :
    ∀ category ∈ categories, ∀ id ∈ result.program.globalVariables,
      category.claims result.program.tables (category.suppliedTo supplied) id = .ok false := by
  induction run with
  | done => simp
  | passed unclaimed rest inductionHypothesis =>
    refine List.forall_mem_cons.mpr ⟨fun id declared => ?_, inductionHypothesis⟩
    exact Category.claims_evolves rest.evolves (unclaimed id (rest.globalVariables_subset declared))
  | lowered step rest inductionHypothesis =>
    refine List.forall_mem_cons.mpr ⟨fun id declared => ?_, inductionHypothesis⟩
    obtain ⟨-, unclaimed⟩ := step.mem_globalVariables (rest.globalVariables_subset declared)
    exact Category.claims_evolves (step.evolves.trans rest.evolves) unclaimed

end LoweringRun

/-- Lowering leaves nothing that a category claims, and lowering what it left gives the same shader
with no structs. A shader without claimed variables is such a shader from the start. -/
theorem Shader.lower_idempotent (shader : Shader) (supplied : Option VariableId) :
    (∀ structs lowered, shader.lower supplied = .ok (structs, lowered) →
      lowered.Unclaimed supplied ∧
        lowered.lower supplied = .ok (Category.all.map fun category => (category, {}), lowered)) ∧
    (shader.Unclaimed supplied →
      shader.lower supplied = .ok (Category.all.map fun category => (category, {}), shader)) := by
  refine ⟨fun structs lowered lowers => ?_, fun unclaimed =>
    Lowering.lowerCategories_unclaimed fun category _ => unclaimed category⟩
  have unclaimed := (Lowering.lowerCategories_inv lowers).unclaimed
  exact ⟨fun category => unclaimed category category.mem_all,
    Lowering.lowerCategories_unclaimed unclaimed⟩

/-- Lowering `Shader.storing` twice. -/
theorem Shader.lower_idempotent_storing : ∃ structs lowered,
    storing.lower none = .ok (structs, lowered) ∧ lowered.Unclaimed none ∧
      lowered.lower none = .ok (Category.all.map fun category => (category, {}), lowered) := by
  obtain ⟨⟨structs, lowered⟩, lowers, -⟩ := Outcome.exists_ok_of_any
    (by decide +kernel : ((storing.lower none).toOption.any fun _ => true) = true)
  obtain ⟨unclaimed, -⟩ := (lower_idempotent storing none).1 structs lowered lowers
  exact ⟨structs, lowered, lowers, unclaimed, (lower_idempotent lowered none).2 unclaimed⟩

/-! ## Variables that may be left -/

namespace Category

/-- Built-ins that are written in the other stage. -/
def isForeignOutput : Stage → BuiltIn → Bool
  | .vertex, builtIn => isFragmentOutput builtIn
  | .fragment, builtIn => isVertexOutput builtIn
  | .compute, _ => false

/-- A built-in that no category of its stage takes is the instance's index, or belongs to the other
stage. -/
theorem builtIn_cases {stage : Stage} (drawn : stage = .vertex ∨ stage = .fragment)
    {builtIn : BuiltIn} (notVertexOut : stage = .vertex → isVertexOutput builtIn = false)
    (notFragmentOut : stage = .fragment → isFragmentOutput builtIn = false)
    (notVertexRun : isVertexInvocation builtIn = false)
    (notFragmentRun : isFragmentInvocation builtIn = false) :
    builtIn = .instanceId ∨ isForeignOutput stage builtIn = true := by
  rcases drawn with rfl | rfl
  · have own := notVertexOut rfl
    cases builtIn <;> simp_all [isVertexOutput, isVertexInvocation, isFragmentInvocation,
      isForeignOutput, isFragmentOutput]
  · have own := notFragmentOut rfl
    cases builtIn <;> simp_all [isFragmentOutput, isVertexInvocation, isFragmentInvocation,
      isForeignOutput, isVertexOutput]

end Category

/-- An interface variable that the rules of a stage leave to the other side: it is neither a
uniform nor an input nor an output, and as a built-in it is the instance's index or an output of the
other stage. -/
structure Variable.Foreign (stage : Stage) (entry : Variable) : Prop where
  isInterface : entry.isInterface = true
  notUniform : .uniform ∉ entry.decorations
  notInput : .input ∉ entry.decorations
  notOutput : .output ∉ entry.decorations
  builtIn : ∀ builtIn ∈ entry.builtIn,
    builtIn = .instanceId ∨ Category.isForeignOutput stage builtIn = true

/-- In a vertex or fragment shader, a variable that no category claims is constant or left to the
other side. -/
theorem Shader.Unclaimed.foreign {shader : Shader} {supplied : Option VariableId}
    (unclaimed : shader.Unclaimed supplied)
    (drawn : shader.program.tables.stage = .vertex ∨ shader.program.tables.stage = .fragment)
    {id : VariableId} (declared : id ∈ shader.program.globalVariables) :
    ∃ entry, shader.program.tables.vars[id.index]? = some entry ∧
      (entry.isConst = true ∨ entry.Foreign shader.program.tables.stage) := by
  have refused (category : Category) := unclaimed category id declared
  obtain ⟨entry, found, -⟩ := Outcome.bind_eq_ok_iff.mp (refused .mutableGlobals)
  simp only [Category.claims, found, Outcome.ok_bind] at refused
  refine ⟨entry, Tables.variableAt_eq_ok_iff.mp found, ?_⟩
  have settled : entry.isConst = true ∨ entry.isInterface = true := by
    have notMutable := refused .mutableGlobals
    simpa only [Outcome.pure_eq_ok, Except.ok.injEq, Bool.and_eq_false_iff,
      Bool.not_eq_false'] using notMutable
  refine settled.imp_right fun isInterface => ?_
  have notVertexIn := refused .vertexIn
  have notVertexOut := refused .vertexOut
  have notFragmentIn := refused .fragmentIn
  have notFragmentOut := refused .fragmentOut
  simp only [Outcome.pure_eq_ok, Except.ok.injEq, Bool.and_eq_false_iff, decide_eq_false_iff_not,
    Bool.or_eq_false_iff] at notVertexIn notVertexOut notFragmentIn notFragmentOut
  exact {
    isInterface
    notUniform := by simpa using refused .userUniforms
    notInput := by
      rcases drawn with vertex | fragment
      · simpa [vertex] using notVertexIn
      · simpa [fragment] using notFragmentIn
    notOutput := by
      rcases drawn with vertex | fragment
      · simpa using (notVertexOut.resolve_left (not_not_intro vertex)).1
      · simpa using (notFragmentOut.resolve_left (not_not_intro fragment)).1
    builtIn := by
      intro builtIn own
      have isBuiltIn : entry.builtIn = some builtIn := own
      rw [isBuiltIn, Option.any_some] at notVertexOut notFragmentOut
      refine Category.builtIn_cases drawn (fun vertex => ?_) (fun fragment => ?_) ?_ ?_
      · exact (notVertexOut.resolve_left (not_not_intro vertex)).2
      · exact (notFragmentOut.resolve_left (not_not_intro fragment)).2
      · simpa [isBuiltIn] using refused .vertexInvocation
      · simpa [isBuiltIn] using refused .fragmentInvocation }

/-- A vertex shader that places its vertices by the index of the instance. -/
def Shader.instancing : Shader where
  program := {
    tables := {
      stage := .vertex
      vars := #[
        { name := ⟨"gl_InstanceID", .shaderInterface⟩, type := .int, builtIn := some .instanceId,
          scope := .global },
        { name := ⟨"gl_Position", .shaderInterface⟩, type := .vec4, builtIn := some .position,
          scope := .global }]
      functions := #[.named "main" [] .void .notApplicable] }
    globals := [.var ⟨0⟩, .var ⟨1⟩,
      .definition ⟨0⟩ [.assign (.var ⟨1⟩) (.construct .vec4 [.var ⟨0⟩])]] }

/-- A valid vertex shader may keep a variable that is not constant: the index of the instance is
recognised by its reserved name alone. -/
theorem Shader.instancing_keeps_mutable : instancing.program.check = .ok () ∧
    ∃ structs lowered, instancing.lower none = .ok (structs, lowered) ∧
      ∃ id ∈ lowered.program.globalVariables, ∃ entry,
        lowered.program.tables.vars[id.index]? = some entry ∧ entry.isConst = false := by
  have passes : instancing.program.check.isOk = true := by decide +kernel
  obtain ⟨⟨structs, lowered⟩, lowers, keeps⟩ := Outcome.exists_ok_of_any
    (by decide +kernel : ((instancing.lower none).toOption.any fun found =>
      found.2.program.globalVariables == [⟨0⟩] &&
        found.2.program.tables.vars[0]?.any fun entry => !entry.isConst) = true)
  simp only [Bool.and_eq_true, beq_iff_eq, Option.any_eq_true_iff_get] at keeps
  obtain ⟨left, known, notConst⟩ := keeps
  exact ⟨Outcome.eq_ok_of_isOk passes, structs, lowered, lowers, ⟨0⟩, by simp [left], _,
    Option.some_get known |>.symm, by simpa using notConst⟩

/-- What a lowered vertex or fragment shader still declares is constant, or an interface variable
that the rules of its stage leave to the other side. -/
theorem Shader.lower_leaves_foreign {shader lowered : Shader} {supplied : Option VariableId}
    {structs : CategoryStructs}
    (drawn : shader.program.tables.stage = .vertex ∨ shader.program.tables.stage = .fragment)
    (lowers : shader.lower supplied = .ok (structs, lowered)) :
    ∀ id ∈ lowered.program.globalVariables, ∃ entry,
      lowered.program.tables.vars[id.index]? = some entry ∧
        (entry.isConst = true ∨ entry.Foreign shader.program.tables.stage) := by
  intro id declared
  have run := Lowering.lowerCategories_inv lowers
  have unclaimed : lowered.Unclaimed supplied := fun category =>
    run.unclaimed category category.mem_all
  rw [← run.evolves.stage] at drawn ⊢
  exact unclaimed.foreign drawn declared

/-- What `Shader.instancing` keeps is left to the other side. -/
theorem Shader.lower_leaves_foreign_instancing : ∃ structs lowered,
    instancing.lower none = .ok (structs, lowered) ∧
      ⟨0⟩ ∈ lowered.program.globalVariables ∧
      ∀ id ∈ lowered.program.globalVariables, ∃ entry,
        lowered.program.tables.vars[id.index]? = some entry ∧
          (entry.isConst = true ∨ entry.Foreign .vertex) := by
  obtain ⟨⟨structs, lowered⟩, lowers, keeps⟩ := Outcome.exists_ok_of_any
    (by decide +kernel : ((instancing.lower none).toOption.any fun found =>
      found.2.program.globalVariables.contains ⟨0⟩) = true)
  exact ⟨structs, lowered, lowers, List.contains_iff_mem.mp keeps,
    lower_leaves_foreign (.inl rfl) lowers⟩

end ShaderPipeline
