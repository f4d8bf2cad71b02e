import ShaderPipeline.Proofs.Alignment
import ShaderPipeline.Proofs.Frames

/-!
# Arguments at calls

What a call passes for a parameter has to suit the type of the parameter. A
category keeps that of all calls, whatever suiting means, if the substitution
keeps it of the old arguments and a variable suits its own type: all that a
category passes besides are variables, and it passes them where it put a parameter
of their type.
-/

namespace ShaderPipeline

namespace Tables

variable {before after : Tables} {suits later : Expr → TypeId → Prop}

/-- What is passed for a parameter suits the type of the parameter. -/
def Suitable (tables : Tables) (suits : Expr → TypeId → Prop) (arg : Expr) (param : Param) : Prop :=
  ∃ entry, tables.vars[param.variableId.index]? = some entry ∧ suits arg entry.type

/-- A call passes as many arguments as the function has parameters, and each of them suits the type
of its parameter. -/
def Passes (tables : Tables) (suits : Expr → TypeId → Prop) (callee : FunctionId)
    (args : List Expr) : Prop :=
  ∃ function, tables.functions[callee.index]? = some function ∧
    List.Forall₂ (tables.Suitable suits) args function.params

/-- A call that passes what suits passes what suits less strictly. -/
theorem Passes.imp {tables : Tables} {callee : FunctionId} {args : List Expr}
    (passes : tables.Passes suits callee args)
    (weaker : ∀ arg ∈ args, ∀ type, suits arg type → later arg type) :
    tables.Passes later callee args := by
  obtain ⟨function, known, each⟩ := passes
  refine ⟨function, known, Outcome.forall₂_imp_mem each fun arg member param suitable => ?_⟩
  obtain ⟨entry, entryKnown, fits⟩ := suitable
  exact ⟨entry, entryKnown, weaker arg member _ fits⟩

/-- Parameters keep their types. -/
theorem Suitable.evolves (evolves : before.Evolves after) {change : Expr → Expr} {args : List Expr}
    {params : List Param} (each : List.Forall₂ (before.Suitable suits) args params)
    (carries : ∀ arg ∈ args, ∀ type, suits arg type → later (change arg) type) :
    List.Forall₂ (after.Suitable later) (args.map change) params := by
  rw [List.forall₂_map_left_iff]
  refine Outcome.forall₂_imp_mem each fun arg member param suitable => ?_
  obtain ⟨entry, known, fits⟩ := suitable
  obtain ⟨gone, there⟩ := evolves.vars known
  exact ⟨_, there, by simpa using carries arg member _ fits⟩

end Tables

/-- An entry point that takes a struct converts it to the internal layout. -/
theorem Category.conversion_of_structParam {category : Category} {rules : LayoutRules}
    (shape : category.entry = .structParam) (hasRules : category.layoutRules = some rules) :
    rules.conversion = .toInternal := by
  cases category <;> simp_all [entry, layoutRules] <;> rw [← hasRules]

/-- An entry point that returns a struct converts it to the external layout. -/
theorem Category.conversion_of_returnsStruct {category : Category} {rules : LayoutRules}
    (shape : category.entry = .returnsStruct) (hasRules : category.layoutRules = some rules) :
    rules.conversion = .toExternal := by
  cases category <;> simp_all [entry, layoutRules] <;> rw [← hasRules]

namespace StepRun

variable {shader result : Shader} {category : Category} {supplied : Option VariableId}
  (step : StepRun shader category supplied result) {suits later : Expr → TypeId → Prop}

/-- A variable may be passed for a parameter of its type. -/
theorem suitable_var
    (own : ∀ {id : VariableId} {entry : Variable},
      result.program.tables.vars[id.index]? = some entry → later (.var id) entry.type)
    {id : VariableId} {param : Param} {entry paramEntry : Variable}
    (known : step.threaded.program.tables.vars[id.index]? = some entry)
    (taken : step.threaded.program.tables.vars[param.variableId.index]? = some paramEntry)
    (sameType : entry.type = paramEntry.type) :
    result.program.tables.Suitable later (.var id) param := by
  obtain ⟨_, there⟩ := step.pruning_evolves.vars known
  obtain ⟨_, takenThere⟩ := step.pruning_evolves.vars taken
  have suitable := own there
  rw [Variable.retire_type, sameType] at suitable
  exact ⟨_, takenThere, by rwa [Variable.retire_type]⟩

/-- A conversion may be called with an instance of each of the two structs. -/
theorem convert_passes
    (own : ∀ {id : VariableId} {entry : Variable},
      result.program.tables.vars[id.index]? = some entry → later (.var id) entry.type)
    {outer : OuterLayout} (isOuter : step.gathering.outer = some outer) {conversion : Conversion}
    (goes : ∀ rules, category.layoutRules = some rules → rules.conversion = conversion)
    {internal external : VariableId} {internalEntry externalEntry : Variable}
    (internalKnown : step.threaded.program.tables.vars[internal.index]? = some internalEntry)
    (internalType : internalEntry.type = step.gathering.internal)
    (externalKnown : step.threaded.program.tables.vars[external.index]? = some externalEntry)
    (externalType : externalEntry.type = step.gathering.external) :
    result.program.tables.Passes later outer.convert
      ((Layout.convertParams conversion internal external).map fun param =>
        .var param.variableId) := by
  obtain ⟨rules, converts⟩ := step.run.converts isOuter
  have sameStruct : step.gathering.external = outer.struct := by simp [Gathering.external, isOuter]
  have inner {direction : Direction} := @suitable_var _ _ _ _ step _ own internal
    ⟨⟨_⟩, direction⟩ _ _ internalKnown converts.internal internalType
  have outside {direction : Direction} := @suitable_var _ _ _ _ step _ own external
    ⟨⟨_ + 1⟩, direction⟩ _ _ externalKnown converts.external (externalType.trans sameStruct)
  refine ⟨_, step.pruning_evolves.functions converts.function, ?_⟩
  rw [Layout.convertFunction, goes rules converts.hasRules]
  cases conversion with
  | toExternal => exact .cons inner (.cons outside .nil)
  | toInternal => exact .cons outside (.cons inner .nil)

/-- What is passed for the parameters of functions still suits their types, if it does so after the
substitution. -/
theorem result_passes
    (before : ∀ definition ∈ shader.program.definitions,
      Block.Every (Expr.Calling (shader.program.tables.Passes suits)) definition.2)
    (carries : ∀ {function : FunctionId} {arg : Expr} {type : TypeId},
      arg.Every (Expr.Uses (step.run.Mentions function) (step.run.Calls function) fun _ => True) →
        suits arg type → later (arg.subst (step.run.change function)) type)
    (own : ∀ {id : VariableId} {entry : Variable},
      result.program.tables.vars[id.index]? = some entry → later (.var id) entry.type) :
    ∀ definition ∈ result.program.definitions,
      Block.Every (Expr.Calling (result.program.tables.Passes later)) definition.2 := by
  have args_suit {function callee : FunctionId} {args : List Expr} {params : List Param}
      (called : step.run.Called function callee args)
      (each : List.Forall₂ (shader.program.tables.Suitable suits) args params) :
      List.Forall₂ (result.program.tables.Suitable later)
        (args.map (Expr.subst (step.run.change function))) params :=
    Tables.Suitable.evolves step.evolves each fun arg member type =>
      carries (called.args arg member)
  refine step.result_calling before (fun {function callee args} called dependent passes => ?_)
    (fun {function callee args} called free passes => ?_)
    (fun outer param dependent shape isOuter taken => ?_)
    fun outer external dependent shape isOuter outside => ?_
  · -- The copy of the function takes the instance first, and then what it took.
    obtain ⟨entry, known, each⟩ := passes
    have helps := called.calls.1
    obtain ⟨holder, holderKnown, holderType, -⟩ := step.run.inst_known (called.calls.2.2 dependent)
    exact ⟨_, step.pruning_evolves.functions (step.run.helper_params dependent helps known),
      .cons (step.suitable_var own holderKnown (step.run.thread.helper_entry dependent helps)
        holderType) (args_suit called each)⟩
  · obtain ⟨entry, known, each⟩ := passes
    exact ⟨entry, step.evolves.functions known, args_suit called each⟩
  · obtain ⟨holder, holderKnown, holderType, -⟩ := step.run.inst_known dependent
    exact step.convert_passes own isOuter (fun _ => Category.conversion_of_structParam shape)
      holderKnown holderType taken rfl
  · obtain ⟨holder, holderKnown, holderType, -⟩ := step.run.inst_known dependent
    obtain ⟨-, side, known⟩ := step.run.thread.ready.external external outside
    exact step.convert_passes own isOuter (fun _ => Category.conversion_of_returnsStruct shape)
      holderKnown holderType (step.run.thread.tables ▸ step.run.thread.coherent.adds.vars known) rfl

end StepRun

end ShaderPipeline
