import ShaderPipeline.Proofs.Gathering

/-!
# Runs of gathering

`GatherRun` keeps what one run of gathering took, found and created. Gathering
succeeds exactly with such a run, so what is known about its steps is known about
the gathered category and the shader that is left.
-/

namespace ShaderPipeline

/-- One run of gathering a category. -/
structure GatherRun (shader : Shader) (category : Category) (supplied : Option VariableId)
    (gathering : Gathering) (result : Shader) where
  place : Nat
  main : FunctionId
  declared : List Global
  /-- The tables with the category's struct, before its external layout is made. -/
  middle : Tables
  registry : Invariance
  bridge : Option Bridge
  sameCategory : gathering.category = category
  sameSupplied : gathering.supplied = supplied
  tested : ∀ id ∈ Gathering.declaredIn shader.program.globals, ∃ answer,
    category.claims shader.program.tables supplied id = .ok answer
  members : gathering.members = (Gathering.declaredIn shader.program.globals).filter
    (Gathering.accepts (category.claims shader.program.tables supplied))
  filled : gathering.members ≠ []
  findsMain : shader.program.tables.findMain (shader.program.globals.filter
    (Gathering.stays (category.claims shader.program.tables supplied))) = .ok (some (place, main))
  internalOk : Gathering.internalStruct shader.program.tables shader.invariance category supplied
    gathering.members = .ok (gathering.internal, declared, middle, registry)
  bridgeOk : Gathering.bridge? middle registry category gathering.internal =
    .ok (bridge, result.program.tables, result.invariance)
  outer : gathering.outer = bridge.map fun bridge => ⟨bridge.struct, bridge.function⟩
  globals : result.program.globals =
    (shader.program.globals.filter
      (Gathering.stays (category.claims shader.program.tables supplied))).take place ++
    (declared ++ (bridge.map Bridge.globals).getD []) ++
    (shader.program.globals.filter
      (Gathering.stays (category.claims shader.program.tables supplied))).drop place
  reflection : result.reflection = shader.reflection

namespace Shader

variable {shader result : Shader} {category : Category} {supplied : Option VariableId}
  {gathering : Gathering}

/-- Gathering that found variables went through all steps. -/
theorem gather_inv (gathers : shader.gather category supplied = .ok (some gathering, result)) :
    Nonempty (GatherRun shader category supplied gathering result) := by
  simp only [Shader.gather, Outcome.bind_eq_ok_iff] at gathers
  obtain ⟨⟨members, kept⟩, takes, gathers⟩ := gathers
  obtain ⟨tested, rfl, rfl⟩ := Gathering.take_inv takes
  split at gathers
  · simp at gathers
  case isFalse filled =>
    simp only [Outcome.bind_eq_ok_iff] at gathers
    obtain ⟨found, findsMain, gathers⟩ := gathers
    cases found with
    | none => simp at gathers
    | some found =>
      obtain ⟨place, main⟩ := found
      simp only [Outcome.bind_eq_ok_iff, Outcome.pure_eq_ok, Except.ok.injEq, Prod.mk.injEq,
        Option.some.injEq] at gathers
      obtain ⟨⟨internal, declared, middle, registry⟩, internalOk, ⟨bridge, tables, invariance⟩,
        bridgeOk, program, inserted, rfl, rfl⟩ := gathers
      simp only [Program.insertAt] at inserted
      split at inserted
      · obtain rfl := Except.ok.inj inserted
        exact ⟨{
          place, main, declared, middle, registry, bridge, tested, findsMain, internalOk, bridgeOk
          sameCategory := rfl
          sameSupplied := rfl
          members := rfl
          filled := by simpa using filled
          outer := rfl
          globals := rfl
          reflection := rfl }⟩
      · simp at inserted

/-- The variables that a category would gather. -/
def claimed (shader : Shader) (category : Category) (supplied : Option VariableId) :
    List VariableId :=
  (Gathering.declaredIn shader.program.globals).filter
    (Gathering.accepts (category.claims shader.program.tables supplied))

/-- A category without variables is passed over. -/
theorem gather_none
    (tested : ∀ id ∈ Gathering.declaredIn shader.program.globals, ∃ answer,
      category.claims shader.program.tables supplied id = .ok answer)
    (once : (Gathering.declaredIn shader.program.globals).Nodup)
    (empty : shader.claimed category supplied = []) :
    shader.gather category supplied = .ok (none, shader) := by
  have takes := @Gathering.take_ok (category.claims shader.program.tables supplied)
    shader.program.globals [] tested (by simpa using once)
  unfold claimed at empty
  simp [Shader.gather, takes, empty]

/-- A category whose variables can become a struct is gathered, if the struct has an external
layout where it needs one. -/
theorem gather_some
    (tested : ∀ id ∈ Gathering.declaredIn shader.program.globals, ∃ answer,
      category.claims shader.program.tables supplied id = .ok answer)
    (once : (Gathering.declaredIn shader.program.globals).Nodup)
    (filled : shader.claimed category supplied ≠ []) {place : Nat} {main : FunctionId}
    (findsMain : shader.program.tables.findMain (shader.program.globals.filter
      (Gathering.stays (category.claims shader.program.tables supplied))) =
        .ok (some (place, main)))
    {internal : TypeId} {declared : List Global} {middle after : Tables}
    {registry invariance : Invariance} {bridge : Option Bridge}
    (internalOk : Gathering.internalStruct shader.program.tables shader.invariance category
      supplied (shader.claimed category supplied) = .ok (internal, declared, middle, registry))
    (bridgeOk : Gathering.bridge? middle registry category internal =
      .ok (bridge, after, invariance)) :
    ∃ gathering result, shader.gather category supplied = .ok (some gathering, result) := by
  have takes := @Gathering.take_ok (category.claims shader.program.tables supplied)
    shader.program.globals [] tested (by simpa using once)
  have inside := (Program.findMain_inv findsMain).1
  have inserted := Nat.le_of_lt inside
  have notEmpty : (shader.claimed category supplied).isEmpty = false := by simpa using filled
  unfold claimed at internalOk notEmpty
  simp only [Shader.gather, takes, List.nil_append, notEmpty, findsMain, internalOk, bridgeOk,
    Program.insertAt, inserted, if_true, Outcome.ok_bind, Outcome.pure_eq_ok]
  exact ⟨_, _, rfl⟩

end Shader

/-! ## The external layout and the registry -/

namespace GatherRun

variable {shader result : Shader} {category : Category} {supplied : Option VariableId}
  {gathering : Gathering}

/-- The external layout was asked for by the rules of the category, or there are no such rules. -/
theorem bridge_cases (run : GatherRun shader category supplied gathering result) :
    (∃ rules, category.layoutRules = some rules ∧
      run.middle.createBridge run.registry rules gathering.internal (category.structName .external) =
        .ok (run.bridge, result.program.tables, result.invariance)) ∨
    (run.bridge = none ∧ result.program.tables = run.middle ∧
      result.invariance = run.registry) := by
  have made := run.bridgeOk
  unfold Gathering.bridge? at made
  split at made
  case h_1 rules hasRules => exact .inl ⟨rules, hasRules, made⟩
  case h_2 =>
    simp only [Except.ok.injEq, Prod.mk.injEq] at made
    exact .inr ⟨made.1.symm, made.2.1.symm, made.2.2.symm⟩

/-- A supplied instance takes no qualifier along. -/
theorem registry_of_supplied {id : VariableId}
    (run : GatherRun shader category (some id) gathering result) :
    run.registry = shader.invariance := by
  have made := run.internalOk
  simp only [Gathering.internalStruct, Outcome.bind_eq_ok_iff, Outcome.pure_eq_ok,
    Except.ok.injEq, Prod.mk.injEq] at made
  obtain ⟨_, -, _, -, -, -, -, -, -, same⟩ := made
  exact same.symm

/-- The fields of a new struct get the qualifiers of the variables. -/
theorem registry_of_unsupplied (run : GatherRun shader category none gathering result) :
    run.registry = shader.invariance.insertFields gathering.internal
      (Gathering.invariantPositions shader.invariance gathering.members) := by
  have made := run.internalOk
  simp only [Gathering.internalStruct, Gathering.createInternal, Outcome.bind_eq_ok_iff,
    Outcome.pure_eq_ok, Except.ok.injEq, Prod.mk.injEq] at made
  obtain ⟨_, ⟨_, -, _, -, rfl⟩, isStruct, -, -, isRegistry⟩ := made
  rw [← isRegistry, ← isStruct]

/-- No variable is registered or taken out of the registry. -/
theorem invariance_vars (run : GatherRun shader category supplied gathering result) :
    result.invariance.vars = shader.invariance.vars := by
  have internal : run.registry.vars = shader.invariance.vars := by
    cases supplied with
    | none => rw [run.registry_of_unsupplied, Invariance.insertFields_vars]
    | some id => rw [run.registry_of_supplied]
  rcases run.bridge_cases with ⟨rules, -, made⟩ | ⟨-, -, same⟩
  · exact (Layout.createBridge_inv made).1.trans internal
  · rw [same, internal]

end GatherRun

end ShaderPipeline
