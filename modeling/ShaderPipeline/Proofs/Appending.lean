import ShaderPipeline.Proofs.Remaining

/-!
# What lowering may change about a shader's own entries

Copies of a function share the variables of its parameters, and the new
signatures are made by setting references and built-ins on variables of one
table. Yet nothing that a shader came with is touched: every type, function and
variable is found under its identity as it was, save that a variable may have
gone out of use, and so is the name that was recorded for it.
-/

namespace ShaderPipeline

/-- Lowering a category records no name for a variable that was there. -/
theorem LoweringStep.names {shader result : Shader} {category : Category}
    {supplied : Option VariableId} {gathering : Gathering}
    (step : LoweringStep shader category supplied gathering result) {id : VariableId}
    (old : id.index < shader.program.tables.vars.size) :
    result.reflection.name? id = shader.reflection.name? id := by
  obtain ⟨gather⟩ := Shader.gather_inv step.gathers
  have kept : id.index < step.gathered.program.tables.vars.size :=
    Nat.lt_of_lt_of_le old gather.evolves.size_vars
  rw [step.reflection, Shader.thread_names step.threads kept, gather.reflection]

/-- Nor does a run. -/
theorem LoweringRun.names {shader result : Shader} {supplied : Option VariableId}
    {categories : List Category} {structs : CategoryStructs}
    (run : LoweringRun supplied categories shader structs result) {id : VariableId}
    (old : id.index < shader.program.tables.vars.size) :
    result.reflection.name? id = shader.reflection.name? id := by
  induction run with
  | done => rfl
  | passed _ _ inductionHypothesis => exact inductionHypothesis old
  | lowered step _ inductionHypothesis =>
    have kept := Nat.lt_of_lt_of_le old step.evolves.size_vars
    rw [inductionHypothesis kept, step.names old]

/-- A lowered shader holds everything that the shader held, under the same identity: its types, its
functions with their parameters, and its variables, which at most went out of use. The stage is the
same, and so are the names that are recorded for these variables. -/
theorem Shader.lower_appends {shader lowered : Shader} {supplied : Option VariableId}
    {structs : CategoryStructs} (lowers : shader.lower supplied = .ok (structs, lowered)) :
    (∀ id type, shader.program.tables.typeAt id = .ok type →
      lowered.program.tables.typeAt id = .ok type) ∧
    (∀ id function, shader.program.tables.functionAt id = .ok function →
      lowered.program.tables.functionAt id = .ok function) ∧
    (∀ id entry, shader.program.tables.variableAt id = .ok entry →
      (lowered.program.tables.variableAt id = .ok entry ∨
        lowered.program.tables.variableAt id = .ok { entry with eliminated := true }) ∧
      lowered.reflection.name? id = shader.reflection.name? id) ∧
    lowered.program.tables.stage = shader.program.tables.stage := by
  have run := Lowering.lowerCategories_inv lowers
  simp only [Tables.typeAt_eq_ok_iff, Tables.functionAt_eq_ok_iff, Tables.variableAt_eq_ok_iff]
  refine ⟨fun id type known => run.evolves.types known,
    fun id function known => run.evolves.functions known, fun id entry known => ?_,
    run.evolves.stage⟩
  obtain ⟨gone, later⟩ := run.evolves.vars known
  refine ⟨?_, run.names (Array.getElem?_eq_some_iff.mp known).1⟩
  cases gone with
  | false => exact .inl later
  | true => exact .inr later

/-- A shader whose helper samples a texture, and whose sampler was already renamed once. -/
def Shader.renamed : Shader where
  program := {
    tables := {
      stage := .fragment
      types := (predefinedTypes ++
        [Ty.image ⟨.float, .planar, true, false, false, false⟩]).toArray
      vars := #[
        { name := ⟨"s", .shaderInterface⟩, type := ⟨21⟩, decorations := [.uniform], scope := .global },
        { name := .temporary "at", type := ⟨5⟩, scope := .parameter }]
      functions := #[.named "look" [⟨⟨1⟩, .input⟩] .vec4 .notApplicable,
        .named "main" [] .void .notApplicable] }
    globals := [.var ⟨0⟩,
      .definition ⟨0⟩ [.ret (some (.sample (.var ⟨0⟩) (.var ⟨1⟩)))],
      .definition ⟨1⟩ [.eval (.call ⟨0⟩ [.construct ⟨5⟩ [.const (.float 0)]])]] }
  reflection := ⟨[(⟨0⟩, "albedo")]⟩

/-- Lowering `Shader.renamed` makes copies of both functions and records two names. The helper keeps
its one parameter, and the sampler the name that it came from. -/
theorem Shader.lower_appends_renamed : ∃ structs lowered,
    renamed.lower none = .ok (structs, lowered) ∧
      lowered.program.tables.functions.size = 4 ∧ lowered.reflection.count = 3 ∧
      lowered.program.tables.functionAt ⟨0⟩ =
        .ok (.named "look" [⟨⟨1⟩, .input⟩] .vec4 .notApplicable) ∧
      lowered.reflection.name? ⟨0⟩ = some "albedo" := by
  obtain ⟨⟨structs, lowered⟩, lowers, grown⟩ := Outcome.exists_ok_of_any
    (by decide +kernel : ((renamed.lower none).toOption.any fun found =>
      found.2.program.tables.functions.size == 4 && found.2.reflection.count == 3) = true)
  simp only [Bool.and_eq_true, beq_iff_eq] at grown
  obtain ⟨-, functions, vars, -⟩ := lower_appends lowers
  obtain ⟨-, name⟩ := vars ⟨0⟩ _ rfl
  exact ⟨structs, lowered, lowers, grown.1, grown.2, functions ⟨0⟩ _ rfl, name⟩

end ShaderPipeline
