import ShaderPipeline.Proofs.CategoryStep
import ShaderPipeline.Proofs.Semantics.Entry
import ShaderPipeline.Proofs.Semantics.Pruned

/-!
# Gathering the mutable globals

The globals of a shader that it may change become fields of a local variable of
the entry point, which sets the fields of those that have an initial value before
its old body runs. No outcome changes, and no value of any other global.
-/

namespace ShaderPipeline

/-- An instance after some of its parts were set to constants. -/
def Value.setParts (parts : List Value) (initials : List (Nat × Constant)) : List Value :=
  initials.foldl (fun parts initial => parts.set initial.1 (.scalar initial.2)) parts

/-- Setting the parts of an instance changes nothing else. -/
theorem Setting.execAll_startValues {setting : Setting} {plan : Plan} {holder : VariableId}
    {root : Root} (found : setting.locate holder = ⟨root, []⟩) {parts : List Value} {store : Store}
    (held : store root = .aggregate parts) :
    ∃ after, setting.execAll (plan.startValues holder) store = some (some .next, after) ∧
      (∀ other, other ≠ root → after other = store other) ∧
      after root = .aggregate (Value.setParts parts plan.initials) := by
  unfold Plan.startValues
  generalize plan.initials = initials
  induction initials generalizing parts store with
  | nil => exact ⟨store, by simp [execAll], fun _ _ => rfl, held⟩
  | cons initial initials inductionHypothesis =>
    let next := store.write ⟨root, [initial.1]⟩ (.scalar initial.2)
    have heldNext : next root = .aggregate (parts.set initial.1 (.scalar initial.2)) := by
      simp [next, Store.write, held, Value.setPart_aggregate]
    obtain ⟨after, runs, keeps, ends⟩ := inductionHypothesis heldNext
    refine ⟨after, ?_, fun other apart => ?_, ends⟩
    · rw [List.map_cons, execAll]
      have assigns : setting.exec (.assign (.field (.var holder) initial.1) (.const initial.2))
          store = some (some .next, next) := by
        simp only [exec, eval, value, found, Run.pure_bind]
        rfl
      rw [Run.bind_of_some assigns]
      exact runs
    · rw [keeps other apart]
      exact Store.write_of_ne _ _ apart

/-- Every entry with an initial value gets it, and the others keep what they have. -/
theorem Value.setParts_initials (rest : Variable → Value) (entries : List Variable)
    (done : List Value) :
    setParts (done ++ entries.map rest)
        (((List.range' done.length entries.length).zip entries).filterMap fun pair =>
          pair.2.initializer.map (pair.1, ·)) =
      done ++ entries.map fun entry => (entry.initializer.map Value.scalar).getD (rest entry) := by
  induction entries generalizing done with
  | nil => rfl
  | cons entry entries inductionHypothesis =>
    have goesOn (value : Value) := inductionHypothesis (done ++ [value])
    simp only [List.length_append, List.length_singleton, List.append_assoc,
      List.singleton_append] at goesOn
    rw [List.length_cons, List.range'_succ, List.zip_cons_cons, List.filterMap_cons, List.map_cons,
      List.map_cons]
    cases initial : entry.initializer with
    | none => exact goesOn (rest entry)
    | some value =>
      rw [← goesOn]
      simp [setParts]

namespace CategoryRun

open Coupling

variable {shader threaded : Shader} {sizes : Nat → Prop}
  (run : CategoryRun shader .mutableGlobals none threaded)

/-- The initial values that move into the entry point are those of the gathered variables. -/
theorem initials_eq : ∃ entries,
    List.Forall₂ (fun id entry => shader.program.tables.vars[id.index]? = some entry)
      run.gathering.members entries ∧
    run.initials = ((List.range' 0 entries.length).zip entries).filterMap fun pair =>
      pair.2.initializer.map (pair.1, ·) := by
  have made : Plan.initialValues run.gathering run.thread.base = .ok run.initials :=
    run.thread.initials
  have extended := run.gathered_extends.trans run.thread.ready.adds.toExtends
  simp only [Plan.initialValues, run.gather.sameCategory, if_true, Outcome.bind_eq_ok_iff,
    Outcome.mapM_eq_ok_iff, Tables.variableAt_eq_ok_iff, Outcome.pure_eq_ok,
    Except.ok.injEq] at made
  obtain ⟨entries, found, same⟩ := made
  refine ⟨entries, Outcome.forall₂_imp_mem found fun id member entry there => ?_, ?_⟩
  · obtain ⟨known, isKnown, -⟩ := run.member_declarable member
    obtain rfl : known = entry := by simpa [extended.vars isKnown] using there
    exact isKnown
  · rw [← same, List.range_eq_range']

/-- The new entry point declares the instance, sets the initial values and runs the old body. -/
theorem main_kept {body : Block} (defined : (run.main, body) ∈ shader.program.definitions)
    (dependent : run.main ∈ run.dependents) {signature : Function}
    (known : shader.program.tables.functions[run.main.index]? = some signature) :
    threaded.program.tables.functions[(run.replace run.main).index]? = some signature ∧
      (run.replace run.main, (.declare (run.inst run.main) none ::
        run.plan.startValues (run.inst run.main)) ++
          [.block (Block.subst body (run.change run.main))]) ∈ threaded.program.definitions := by
  have sameCategory : run.plan.category = .mutableGlobals := run.gather.sameCategory
  rcases run.main_turned dependent defined known with
    ⟨noLocal, -⟩ | ⟨_, _, _, -, copiedKnown, surrounds, there⟩
  · simp [Plan.hasLocal, sameCategory, Category.alwaysLocal, Category.entry] at noLocal
  · cases surrounds with
    | kept =>
      have plain : run.plan.nest [] (Block.subst body (run.change run.main)) =
          Block.subst body (run.change run.main) := by
        simp [Plan.nest, sameCategory, Category.isOut]
      rw [plain] at there
      exact ⟨copiedKnown, there⟩
    | returning shape | fieldParams shape | textureParams shape | indexParam shape
    | converted shape => simp [sameCategory, Category.entry] at shape

variable (runnable : shader.program.Runnable sizes)

include runnable

/-- What stands before the old body fills the instance with what the gathered variables start
with. -/
theorem fills_globals (acyclic : threaded.program.tables.Acyclic)
    (dependent : run.main ∈ run.dependents) {setting : Setting}
    (found : setting.locate (run.inst run.main) = run.homePlace)
    (sameInitial : setting.initial = threaded.program.tables.initial)
    {given : VariableId → Option Value} (unset : ∀ id ∈ run.gathering.members, given id = none)
    (store : Store) :
    ∃ filled, setting.execAll (.declare (run.inst run.main) none ::
        run.plan.startValues (run.inst run.main)) store = some (some .next, filled) ∧
      (∀ root, root ≠ .frame 0 (run.inst run.main) → filled root = store root) ∧
      filled (.frame 0 (run.inst run.main)) = .aggregate (run.gathering.members.map fun id =>
        shader.program.tables.start given (.global id)) := by
  obtain ⟨entries, isEntries, initials⟩ := run.initials_eq
  let declared := store.write run.homePlace (threaded.program.tables.initial (run.inst run.main))
  have held : declared (.frame 0 (run.inst run.main)) =
      .aggregate (run.gathering.members.map shader.program.tables.initial) := by
    rw [← run.initial_inst runnable acyclic (by simp) dependent]
    exact Store.write_root _ _ _
  obtain ⟨filled, runs, keeps, ends⟩ := @Setting.execAll_startValues setting run.plan
    (run.inst run.main) (.frame 0 (run.inst run.main)) found _ declared held
  refine ⟨filled, ?_, fun root apart => ?_, ?_⟩
  · have declares : setting.exec (.declare (run.inst run.main) none) store =
        some (some .next, declared) := by
      simp only [Setting.exec, Setting.declared, found, sameInitial, Run.pure_bind]
      rfl
    rw [Setting.execAll, Run.bind_of_some declares]
    exact runs
  · rw [keeps root apart]
    exact Store.write_of_ne _ _ apart
  · have zeros : run.gathering.members.map shader.program.tables.initial =
        entries.map fun entry => shader.program.tables.zero entry.type := by
      rw [← List.forall₂_eq_eq_eq, List.forall₂_map_left_iff, List.forall₂_map_right_iff]
      exact isEntries.imp fun id entry known => by simp [Tables.initial, known]
    have starts : (run.gathering.members.map fun id =>
        shader.program.tables.start given (.global id)) = entries.map fun entry =>
          (entry.initializer.map Value.scalar).getD (shader.program.tables.zero entry.type) := by
      rw [← List.forall₂_eq_eq_eq, List.forall₂_map_left_iff, List.forall₂_map_right_iff]
      refine Outcome.forall₂_imp_mem isEntries fun id member entry known => ?_
      cases initial : entry.initializer <;>
        simp [Tables.start, known, initial, unset id member, Tables.initial]
    have plan : run.plan.initials = run.initials := rfl
    rw [ends, plan, initials, zeros, starts]
    exact congrArg _ (Value.setParts_initials _ entries [])

/-- The entry points go the same way. -/
theorem globals_match (acyclic : threaded.program.tables.Acyclic)
    {given : VariableId → Option Value} (unset : ∀ id ∈ run.gathering.members, given id = none)
    (interp : Interpretation) (fuel : Nat) (args : List Value) :
    run.coupling.Matches (Always Eq)
      (shader.program.enterMain interp fuel args (shader.program.tables.start given))
      (threaded.program.enterMain interp fuel args (threaded.program.tables.start given)) := by
  cases fuel with
  | zero => exact run.enterMain_zero
  | succ fuel =>
    obtain ⟨body, defined⟩ := run.enters.defined
    obtain ⟨signature, known, -⟩ := run.enters.isMain _ defined
    obtain ⟨arrived, -, changed, enters, -, entersNew, holds, keeps, -⟩ :=
      @arrives _ _ _ _ run runnable _ known args [] (by simp) _ _
        (run.holds_start runnable fun _ _ => rfl)
    rw [run.enters.run_body run.orderly.onceDefinitions known defined interp fuel args enters]
    by_cases dependent : run.main ∈ run.dependents
    · obtain ⟨keptKnown, keptDefined⟩ := run.main_kept defined dependent known
      rw [run.result_enters.run_body run.result_once keptKnown keptDefined interp fuel args entersNew]
      let frame := threaded.program.tables.frame interp fuel 0
        (signature.params.zip (Passed.values args)) (threaded.program.call interp fuel 1)
      have found : frame.locate (run.inst run.main) = run.homePlace :=
        run.locate_inst dependent Passed.values_placeless
      obtain ⟨filled, fills, others, ends⟩ :=
        run.fills_globals runnable acyclic dependent found rfl unset changed
      have corresponds : run.coupling.stores arrived filled :=
        run.stores_filled dependent holds others (by simpa only [keeps] using ends)
      refine Matches.result ?_
      rw [Setting.execAll_nested fills]
      exact @main_matches _ _ _ _ run runnable _ defined _ known interp fuel args [] (by simp)
        (by simp) _ _ corresponds
    · have keptKnown := run.extended.functions known
      rw [← run.replace_eq_self dependent] at keptKnown
      rw [run.result_enters.run_body run.result_once keptKnown
        (run.main_free defined dependent) interp fuel args entersNew]
      exact Matches.result (@main_matches _ _ _ _ run runnable _ defined _ known interp fuel args []
        (by simp) (by simp) _ _ (run.stores_free dependent holds))

end CategoryRun

/-- Gathering and threading a category takes no addresses. -/
theorem CategoryRun.result_plain {shader threaded : Shader} {category : Category}
    {supplied : Option VariableId} (run : CategoryRun shader category supplied threaded)
    (notTextures : category ≠ .textures) (plain : shader.program.Plain) :
    threaded.program.Plain := by
  intro definition defined root own
  refine (run.result_uses (fun isTextures => absurd isTextures notTextures)
    (fun {function body} old _ => ?_)
    (fun old _ => run.subst_uses old (plain _ old) fun _ impossible _ => impossible.elim)
    defined root own).uses (fun _ _ => trivial) (fun _ _ => trivial) fun _ impossible => impossible
  refine Block.every_uses (fun _ _ => trivial) (fun callee called => ?_) (plain _ old)
  obtain ⟨helps, known⟩ := called_helps run.orderly old called
  exact helps.extends run.extended known

/-- The global variables that a category leaves alone. -/
def Shader.Leaves (shader : Shader) (category : Category) (id : VariableId) : Prop :=
  id ∈ shader.program.globalVariables ∧ id ∉ shader.claimed category none

/-- Lowering the mutable globals of a shader succeeds, and whatever the other globals hold at the
start, the entry point ends in the same way as before: with the same result or discarded, and with
the same values of the other globals. -/
theorem Shader.mutableGlobals_preserved {shader : Shader} {sizes : Nat → Prop}
    (runnable : shader.program.Runnable sizes) (supplied : Option VariableId) :
    ∃ structs result, (Lowering.lowerCategory (fun _ => .ok ()) supplied shader .mutableGlobals :
        Result (Scoped TypeId × Shader)) = .ok (structs, result) ∧
      ∀ interp given args outcome values,
        (∀ id ∈ shader.claimed .mutableGlobals none, given id = none) →
          (shader.program.Ends interp given args (shader.Leaves .mutableGlobals) outcome values ↔
            result.program.Ends interp given args (shader.Leaves .mutableGlobals) outcome
              values) := by
  have suits : shader.Suits .mutableGlobals (Category.suppliedTo .mutableGlobals supplied) sizes := {
    grounded := runnable.toGrounded
    filled := by simp [Category.layoutRules]
    samplers := by simp
    addresses := by simp [CategoryRun.Addresses]
    supplied := by simp [Category.suppliedTo] }
  rcases Lowering.lowerCategory_settles suits with ⟨-, isOut, -⟩ | ⟨⟨structs, result⟩, lowers, settled⟩
  · simp [Category.isOut] at isOut
  · refine ⟨structs, result, lowers, fun interp given args outcome values unset => ?_⟩
    rcases settled with ⟨same, -⟩ | ⟨step, -⟩
    · obtain ⟨-, rfl⟩ := Prod.mk.inj same
      exact Iff.rfl
    · have grounded := step.run.result_grounded suits.grounded suits.filled suits.addresses
      have members : step.run.gathering.members = shader.claimed .mutableGlobals none :=
        step.run.gather.members
      have threads := @Program.ends_iff shader.program step.run.coupling step.threaded.program
        interp given args args (shader.Leaves .mutableGlobals) ⟨id, id⟩
        (fun holds id left => holds.globals id (step.run.orderly.declared_known left.1)
          (members ▸ left.2))
        (fun fuel => step.run.globals_match runnable grounded.acyclic (members ▸ unset) interp fuel
          args) outcome values
      exact threads.trans (step.pruned.thins.ends_iff grounded.toOrderly
        (step.run.result_plain (by simp) runnable.plain) step.run.result_enters interp given args _
        outcome values)

/-- The shader that stores can be run. -/
theorem Shader.storing_runnable : storing.program.Runnable fun _ => True where
  toOrderly := storing_orderly
  acyclic := by decide
  sized _ := trivial
  params := (by decide : storing.program.tables.FunctionsClosed).params
  plain := by decide
  direct := by decide

/-- The variable that `Shader.storing` stores in is lowered, and its runs stay the same. -/
theorem Shader.mutableGlobals_preserved_storing :
    storing.claimed .mutableGlobals none = [⟨0⟩] ∧
    ∃ structs result, (Lowering.lowerCategory (fun _ => .ok ()) none storing .mutableGlobals :
        Result (Scoped TypeId × Shader)) = .ok (structs, result) ∧
      ∀ interp given args outcome values,
        (∀ id ∈ storing.claimed .mutableGlobals none, given id = none) →
          (storing.program.Ends interp given args (storing.Leaves .mutableGlobals) outcome
              values ↔
            result.program.Ends interp given args (storing.Leaves .mutableGlobals) outcome
              values) :=
  ⟨by decide, mutableGlobals_preserved storing_runnable none⟩

end ShaderPipeline
