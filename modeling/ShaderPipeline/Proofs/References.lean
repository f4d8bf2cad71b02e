import ShaderPipeline.Proofs.Frames

/-!
# References at calls

A function that takes a reference is passed a variable of the same type: a
reference that the caller itself was given into the same address space, or, where
the reference is into the memory of the thread, a variable of the caller. A
category adds a reference as the first parameter of a helper and passes the
caller's instance there, and how the entry point comes by its instance decides the
address space for all helpers.
-/

namespace ShaderPipeline

namespace Tables

/-- A variable that may be passed where a reference of a type into an address space is taken. -/
def Lends (tables : Tables) (space : AddressSpace) (type : TypeId) (arg : Expr) : Prop :=
  ∃ id entry, arg = .var id ∧ tables.vars[id.index]? = some entry ∧ entry.type = type ∧
    ((entry.scope = .parameter ∧ entry.reference = some space) ∨
      (space = .thread ∧ (entry.scope = .local ∨ entry.scope = .parameter) ∧
        entry.reference = none))

/-- The arguments hold a suitable variable for every parameter that is a reference. -/
def LendsEach (tables : Tables) (params : List Param) (args : List Expr) : Prop :=
  ∀ (position : Nat) (param : Param) (entry : Variable) (space : AddressSpace),
    params[position]? = some param → tables.vars[param.variableId.index]? = some entry →
    entry.reference = some space →
      ∃ arg, args[position]? = some arg ∧ tables.Lends space entry.type arg

/-- A call passes a suitable variable for every reference that the function takes. -/
def PassesReferences (tables : Tables) (callee : FunctionId) (args : List Expr) : Prop :=
  ∃ function, tables.functions[callee.index]? = some function ∧
    tables.LendsEach function.params args

variable {before after : Tables}

/-- A variable may be passed for a reference while the tables evolve. -/
theorem Lends.evolves {space : AddressSpace} {type : TypeId} {arg : Expr}
    (lends : before.Lends space type arg) (evolves : before.Evolves after) :
    after.Lends space type arg := by
  obtain ⟨id, entry, isVar, known, isType, suitable⟩ := lends
  obtain ⟨gone, there⟩ := evolves.vars known
  exact ⟨id, _, isVar, there, by simpa using isType, by simpa using suitable⟩

/-- What is lent is not a global variable, so a substitution of global variables keeps it. -/
theorem Lends.subst {space : AddressSpace} {type : TypeId} {arg : Expr} {change : Substitution}
    (lends : before.Lends space type arg)
    (keeps : ∀ {id : VariableId} {entry : Variable}, before.vars[id.index]? = some entry →
      entry.scope ≠ .global → change.symbol id = .var id) :
    before.Lends space type (arg.subst change) := by
  obtain ⟨id, entry, rfl, known, isType, suitable⟩ := lends
  have inner : entry.scope ≠ .global := by
    rcases suitable with ⟨scope, -⟩ | ⟨-, scope | scope, -⟩ <;> simp [scope]
  exact ⟨id, entry, keeps known inner, known, isType, suitable⟩

/-- Arguments suit if the first one suits the first parameter and the others do. -/
theorem LendsEach.cons {param : Param} {params : List Param} {entry : Variable} {arg : Expr}
    {args : List Expr} (known : before.vars[param.variableId.index]? = some entry)
    (first : ∀ space, entry.reference = some space → before.Lends space entry.type arg)
    (rest : before.LendsEach params args) : before.LendsEach (param :: params) (arg :: args) := by
  intro position other otherEntry space taken otherKnown isReference
  cases position with
  | zero =>
    obtain rfl : param = other := by simpa using taken
    obtain rfl := Option.some.inj (known.symm.trans otherKnown)
    exact ⟨arg, rfl, first space isReference⟩
  | succ position => exact rest position other otherEntry space taken otherKnown isReference

/-- What is passed for known parameters still is after a substitution of global variables. -/
theorem LendsEach.evolves {params : List Param} {args : List Expr} {change : Substitution}
    (each : before.LendsEach params args) (evolves : before.Evolves after)
    (inside : ∀ param ∈ params, param.variableId.index < before.vars.size)
    (keeps : ∀ {id : VariableId} {entry : Variable}, before.vars[id.index]? = some entry →
      entry.scope ≠ .global → change.symbol id = .var id) :
    after.LendsEach params (args.map (Expr.subst change)) := by
  intro position param entry space taken known isReference
  have old := Array.getElem?_eq_getElem (inside param (List.mem_of_getElem? taken))
  obtain ⟨gone, there⟩ := evolves.vars old
  obtain rfl := Option.some.inj (there.symm.trans known)
  obtain ⟨arg, passed, lends⟩ := each _ _ _ _ taken old (by simpa using isReference)
  rw [Variable.retire_type]
  exact ⟨arg.subst change, by simp [passed], (lends.subst keeps).evolves evolves⟩

end Tables

namespace Plan

/-- The memory that the instance of a helper is in. -/
def helperSpace (plan : Plan) : AddressSpace :=
  if plan.outer.isNone then plan.category.externalSpace else .thread

@[simp] theorem helperEntry_reference (plan : Plan) :
    plan.helperEntry.reference = some plan.helperSpace := rfl

@[simp] theorem helperEntry_type (plan : Plan) : plan.helperEntry.type = plan.internal := rfl

/-- An instance that the entry point declares is in the memory of the thread. -/
theorem helperSpace_of_hasLocal {plan : Plan} (isLocal : plan.hasLocal = true) :
    plan.helperSpace = .thread := by
  unfold helperSpace
  split
  case isTrue same =>
    have always : plan.category.alwaysLocal = true := by
      simpa [hasLocal, Option.isNone_iff_eq_none.mp same] using isLocal
    revert always
    cases plan.category <;> decide
  case isFalse => rfl

/-- An entry point that is handed an instance gets it from where the helpers expect it, or by
value. -/
theorem helperSpace_of_handed {plan : Plan} (handed : plan.hasLocal = false) :
    plan.structEntry.reference = some plan.helperSpace ∨
      (plan.structEntry.reference = none ∧ plan.helperSpace = .thread) := by
  obtain ⟨-, same⟩ : plan.category.alwaysLocal = false ∧ plan.outer = none := by
    simpa [hasLocal] using handed
  simp only [structEntry, helperSpace, same, Option.isNone_none, if_true]
  cases plan.category <;> decide

end Plan

namespace CategoryRun

variable {shader result : Shader} {category : Category} {supplied : Option VariableId}
  (run : CategoryRun shader category supplied result)

/-- Every dependent function can lend its instance to a helper. -/
theorem inst_lends {function : FunctionId} (dependent : function ∈ run.dependents) :
    result.program.tables.Lends run.plan.helperSpace run.gathering.internal
      (.var (run.inst function)) := by
  by_cases helps : function = run.main
  · subst helps
    by_cases isLocal : run.plan.hasLocal = true
    · obtain ⟨-, there⟩ := run.thread.ready.internal _ (run.thread.inst_local dependent isLocal)
      exact ⟨_, _, rfl, run.thread.tables ▸ run.thread.coherent.adds.vars there, rfl,
        .inr ⟨Plan.helperSpace_of_hasLocal isLocal, .inl rfl, rfl⟩⟩
    · have handed : run.plan.hasLocal = false := by simpa using isLocal
      obtain ⟨body, defined⟩ := run.enters.defined
      obtain ⟨entry, known, -⟩ := run.enters.isMain _ defined
      obtain ⟨there, -⟩ := run.thread.main_handed dependent handed
        (run.gathered_extends.functions known)
      have sameStruct : run.plan.structEntry.type = run.gathering.internal := by
        have same : run.plan.outer = none := by simpa using (Bool.or_eq_false_iff.mp handed).2
        change run.gathering.outer = none at same
        simp [Plan.structEntry, plan, Gathering.external, same]
      refine ⟨_, _, rfl, there, sameStruct, ?_⟩
      rcases Plan.helperSpace_of_handed handed with reference | ⟨reference, isThread⟩
      · exact .inl ⟨rfl, reference⟩
      · exact .inr ⟨isThread, .inr rfl, reference⟩
  · exact ⟨_, _, rfl, run.thread.helper_entry dependent helps, rfl, .inl ⟨rfl, rfl⟩⟩

/-- A call of the conversion function passes no references. -/
theorem convert_passesReferences {outer : OuterLayout} (isOuter : run.gathering.outer = some outer)
    (args : List Expr) {after : Tables} (evolves : result.program.tables.Evolves after) :
    after.PassesReferences outer.convert args := by
  obtain ⟨rules, converts⟩ := run.converts isOuter
  refine ⟨_, evolves.functions converts.function, fun _ _ _ _ taken known isReference => ?_⟩
  obtain ⟨text, struct, there⟩ := converts.params _ (List.mem_of_getElem? taken)
  obtain ⟨gone, later⟩ := evolves.vars there
  obtain rfl := Option.some.inj (later.symm.trans known)
  simp [Layout.convertEntry] at isReference

end CategoryRun

/-- What a category does to a call keeps its references passed. -/
theorem StepRun.result_passesReferences {shader result : Shader} {category : Category}
    {supplied : Option VariableId} (step : StepRun shader category supplied result)
    (functions : shader.program.tables.FunctionsClosed)
    (before : ∀ definition ∈ shader.program.definitions,
      Block.Every (Expr.Calling shader.program.tables.PassesReferences) definition.2) :
    ∀ definition ∈ result.program.definitions,
      Block.Every (Expr.Calling result.program.tables.PassesReferences) definition.2 := by
  have pruning := step.pruning_evolves
  refine step.result_calling before (fun {function callee args} called dependent passes => ?_)
    (fun {function callee args} called free passes => ?_) (fun outer param _ _ isOuter _ => ?_)
    fun outer external _ _ isOuter _ => ?_
  · -- The copy of the function takes the instance first, and then what it took.
    obtain ⟨entry, known, each⟩ := passes
    have helps := called.calls.1
    obtain ⟨gone, there⟩ := pruning.vars (step.run.thread.helper_entry dependent helps)
    refine ⟨_, pruning.functions (step.run.helper_params dependent helps known),
      .cons there (fun space isReference => ?_)
        (each.evolves step.evolves (functions.params known) step.run.symbol_inner)⟩
    obtain rfl : step.run.plan.helperSpace = space :=
      Option.some.inj (by rwa [Variable.retire_reference] at isReference)
    rw [Variable.retire_type, Plan.helperEntry_type]
    exact (step.run.inst_lends (called.calls.2.2 dependent)).evolves pruning
  · obtain ⟨entry, known, each⟩ := passes
    exact ⟨entry, step.evolves.functions known,
      each.evolves step.evolves (functions.params known) step.run.symbol_inner⟩
  · exact step.run.convert_passesReferences isOuter _ pruning
  · exact step.run.convert_passesReferences isOuter _ pruning

/-- Wherever a lowered shader calls a function that takes a reference, it passes a variable of the
same type: a reference into the same address space, or a variable of the caller if the reference is
into the memory of the thread. -/
theorem Shader.lower_passes_references {shader lowered : Shader} {supplied : Option VariableId}
    {structs : CategoryStructs} (orderly : shader.program.Orderly)
    (functions : shader.program.tables.FunctionsClosed)
    (noReferences : ∀ {index : Nat} {entry : Variable},
      shader.program.tables.vars[index]? = some entry → entry.reference = none)
    (lowers : shader.lower supplied = .ok (structs, lowered)) :
    ∀ definition ∈ lowered.program.definitions,
      Block.Every (Expr.Calling lowered.program.tables.PassesReferences) definition.2 := by
  have first : ∀ definition ∈ shader.program.definitions,
      Block.Every (Expr.Calling shader.program.tables.PassesReferences) definition.2 := by
    intro definition defined root own node inside
    cases node with
    | call callee args =>
      obtain ⟨count, -, function, known, -⟩ :=
        Validity.checkDefinition_occurs (orderly.check_definition defined) root own _ inside
      refine ⟨function, known, fun _ _ entry space _ there isReference => ?_⟩
      simp [noReferences there] at isReference
    | _ => trivial
  obtain ⟨-, -, passes⟩ := (Lowering.lowerCategories_inv lowers).keeps
    (fun shader => shader.program.tables.FunctionsClosed ∧
      ∀ definition ∈ shader.program.definitions,
        Block.Every (Expr.Calling shader.program.tables.PassesReferences) definition.2)
    (fun step _ ⟨functions, passes⟩ =>
      ⟨step.result_functions functions, step.result_passesReferences functions passes⟩)
    orderly ⟨functions, first⟩
  exact passes

/-- Lowered, the helper of `Shader.storing` takes a reference into the memory of the thread, and its
entry point passes one. -/
theorem Shader.lower_passes_references_storing : ∃ structs lowered,
    storing.lower none = .ok (structs, lowered) ∧
    (∃ entry ∈ lowered.program.tables.vars, entry.reference = some .thread) ∧
    ∀ definition ∈ lowered.program.definitions,
      Block.Every (Expr.Calling lowered.program.tables.PassesReferences) definition.2 := by
  obtain ⟨⟨structs, lowered⟩, lowers, takes⟩ := Outcome.exists_ok_of_any
    (by decide +kernel : ((storing.lower none).toOption.any fun found =>
      found.2.program.tables.vars.any fun entry => entry.reference == some .thread) = true)
  obtain ⟨index, inside, isReference⟩ := Array.any_eq_true.mp takes
  refine ⟨structs, lowered, lowers, ⟨_, Array.getElem_mem inside, by simpa using isReference⟩,
    lower_passes_references storing_orderly (by decide)
      (fun {index entry} known => ?_) lowers⟩
  have all : ∀ entry ∈ storing.program.tables.vars, entry.reference = none := by decide
  exact all entry (Array.mem_of_getElem? known)

end ShaderPipeline
