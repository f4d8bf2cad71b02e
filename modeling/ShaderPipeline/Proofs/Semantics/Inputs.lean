import ShaderPipeline.Proofs.Semantics.Bridged

/-!
# Taking the inputs in

The entry point takes the inputs of a shader as the value of a struct in the
external layout. If that is the struct that the shader works with, the parameter is
the instance; if not, the entry point declares the instance and converts the
parameter into it. Either way the instance holds what the gathered variables held,
and the old body goes on as before.
-/

namespace ShaderPipeline

/-! ## Statements around the old body -/

namespace Setting

variable {setting : Setting} {store after : Store}

/-- Declaring a variable without a value writes what it holds at first. -/
theorem exec_declare {id : VariableId} {root : Root} (finds : setting.locate id = ⟨root, []⟩) :
    setting.exec (.declare id none) store =
      some (some .next, store.write ⟨root, []⟩ (setting.initial id)) := by
  simp only [exec, declared, Run.pure_bind, finds]
  rfl

/-- Converting hands the two structs over with their places. -/
theorem exec_convert {outer : OuterLayout} {source target : VariableId} {first second : Root}
    (findsSource : setting.locate source = ⟨first, []⟩)
    (findsTarget : setting.locate target = ⟨second, []⟩)
    (calls : setting.invoke outer.convert [⟨some ⟨first, []⟩, store first⟩,
      ⟨some ⟨second, []⟩, store second⟩] store = some (some default, after)) :
    setting.exec (Plan.convert outer source target) store = some (some .next, after) := by
  simp only [Plan.convert, exec, eval, evalAll, findsSource, findsTarget, Run.pure_bind,
    Run.bind_assoc]
  rw [Run.bind_of_some (Run.load_apply _ store), Run.bind_of_some (Run.load_apply _ store)]
  exact Run.bind_of_some calls

end Setting

namespace CategoryRun

open Coupling

variable {shader threaded : Shader} {category : Category} {rules : LayoutRules}
  {sizes : Nat → Prop} (run : CategoryRun shader category none threaded)
  (runnable : shader.program.Runnable sizes)

include runnable

omit runnable in
/-- The stores correspond apart from the instance, a variable of the new entry point holds a value,
and nothing was called yet. -/
structure Receives (holder : VariableId) (value : Value) (store changed : Store) : Prop where
  holds : Holds run.gathering.members (Old shader) none store changed
  uncalled : ∀ id, store (.frame 1 id) = shader.program.tables.initial id
  held : changed (.frame 0 holder) = value

/-- The new entry point can be given one more value in front, for a new parameter. -/
theorem arrives_with {signature : Function}
    (known : shader.program.tables.functions[run.main.index]? = some signature)
    {given others : VariableId → Option Value}
    (agree : ∀ id, id ∉ run.gathering.members → others id = given id)
    (args : List Value) {holder : VariableId} (fresh : ¬ Old shader holder) (value : Value) :
    ∃ arrived changed,
      shader.program.tables.enter 0 (signature.params.zip (Passed.values args))
        (shader.program.tables.clear 0 (shader.program.tables.start given)) =
          some (some (), arrived) ∧
      threaded.program.tables.enter 0 ((⟨holder, .input⟩, ⟨none, value⟩) ::
          signature.params.zip (Passed.values args))
        (threaded.program.tables.clear 0 (threaded.program.tables.start others)) =
          some (some (), changed) ∧
      (∀ id, arrived (.global id) = shader.program.tables.start given (.global id)) ∧
      run.Receives holder value arrived changed := by
  obtain ⟨arrived, middle, changed, enters, begins, entersNew, holds, globals, news⟩ :=
    @arrives _ _ _ _ run runnable _ known args [(⟨holder, .input⟩, ⟨none, value⟩)]
      (by simpa using fresh) _ _ (run.holds_start runnable agree)
  refine ⟨arrived, changed, enters, entersNew, globals, holds, fun id => ?_, ?_⟩
  · rw [Tables.enter_keeps enters (by simp)]
    rfl
  · rw [Tables.enter_value] at begins
    obtain rfl : _ = middle := by simpa using begins
    rw [news holder fresh, Store.write_root]

omit runnable in
/-- What the gathered variables start with, if nothing but what is given sets them. -/
theorem start_given {given : VariableId → Option Value} {values : VariableId → Value}
    (unset : ∀ id ∈ run.gathering.members, ∀ {entry : Variable},
      shader.program.tables.vars[id.index]? = some entry → entry.initializer = none)
    (isGiven : ∀ id ∈ run.gathering.members, given id = some (values id)) :
    (run.gathering.members.map fun id => shader.program.tables.start given (.global id)) =
      run.gathering.members.map values := by
  refine List.map_congr_left fun id member => ?_
  obtain ⟨entry, known⟩ := (run.gather.member_known member).2
  simp [Tables.start, known, unset id member known, isGiven id member]

omit runnable in
/-- The stores correspond once the instance is converted. -/
theorem Receives.converted {run : CategoryRun shader category none threaded} {holder : VariableId}
    {value : Value} {store changed after : Store} (receives : run.Receives holder value store changed)
    (dependent : run.main ∈ run.dependents)
    (clears : ∀ id, Old shader id → after (.frame 1 id) = shader.program.tables.initial id)
    (keeps : ∀ root, (∀ depth id, root = .frame depth id → Old shader id) →
      (∀ id, root ≠ .frame 1 id) → after root = changed root)
    (filled : after (.frame 0 (run.inst run.main)) =
      .aggregate (run.gathering.members.map fun id => store (.global id))) :
    run.coupling.stores store after := by
  refine run.stores_filled dependent (receives.holds.frame_new fun root matters => ?_)
    (fun _ _ => rfl) filled
  cases root with
  | global id => exact keeps _ matters (by simp)
  | frame depth id =>
    have isOld := matters depth id rfl
    by_cases own : depth = 1
    · subst own
      rw [clears id isOld, receives.holds.frames 1 id isOld, receives.uncalled]
    · exact keeps _ matters (by simp [own])

omit runnable in
/-- The new body of an entry point that takes the inputs: the instance is the parameter, or the
parameter is converted into it. -/
inductive Takes (core : Block) : VariableId → Block → Prop where
  | handed (unbridged : run.gathering.outer = none) : Takes core (run.inst run.main) core
  | converted {outer : OuterLayout} {param : VariableId} (isOuter : run.gathering.outer = some outer)
      (apart : param ≠ run.inst run.main)
      (isLocal : threaded.program.tables.isGlobal param = false) :
      Takes core param ([.declare (run.inst run.main) none,
        Plan.convert outer param (run.inst run.main)] ++ [.block core])

omit runnable in
/-- The new entry point takes the inputs in front of its old parameters. -/
theorem main_takes (hasRules : category.layoutRules = some rules) (isIn : category.isOut = false)
    (dependent : run.main ∈ run.dependents) {body : Block}
    (defined : (run.main, body) ∈ shader.program.definitions) {signature : Function}
    (known : shader.program.tables.functions[run.main.index]? = some signature) :
    ∃ holder whole, ¬ Old shader holder ∧
      threaded.program.tables.functions[(run.replace run.main).index]? =
        some (signature.prepend ⟨holder, .input⟩) ∧
      (run.replace run.main, whole) ∈ threaded.program.definitions ∧
      run.Takes (Block.subst body (run.change run.main)) holder whole := by
  have isNew : ¬ Old shader (run.inst run.main) := Nat.not_lt.mpr (run.inst_new dependent).1
  have isShape : run.plan.category.entry = .structParam := by
    have sameCategory : run.plan.category = category := run.gather.sameCategory
    rw [sameCategory]
    cases category <;> simp_all [Category.layoutRules, Category.isOut, Category.entry]
  rcases run.main_turned dependent defined known with
    ⟨noLocal, there⟩ | ⟨_, _, _, isLocal, copiedKnown, surrounds, there⟩
  · obtain ⟨-, copiedKnown⟩ := run.thread.main_handed dependent noLocal
      (run.gathered_extends.functions known)
    have unbridged : run.gathering.outer = none := by
      simpa [Plan.hasLocal, plan] using (Bool.or_eq_false_iff.mp noLocal).2
    exact ⟨_, _, isNew, copiedKnown, there, .handed unbridged⟩
  · have leftAlone (leaving : Block) : run.plan.nest leaving (Block.subst body (run.change run.main)) =
        Block.subst body (run.change run.main) := by
      have notOut : run.plan.category.isOut = false := Category.isOut_eq_false (by simp [isShape])
      simp [Plan.nest, notOut]
    cases surrounds with
    | kept other | returning other | fieldParams other | textureParams other | indexParam other =>
      simp [isShape] at other
    | @converted outer param _ isOuter new taken =>
      rw [leftAlone] at there
      obtain ⟨-, inBase⟩ := run.thread.ready.internal _ (run.thread.inst_local dependent isLocal)
      have since := run.thread.ready.adds.size_vars
      refine ⟨param, _, fun isOld => ?_, copiedKnown, there, .converted isOuter ?_ ?_⟩
      · have inside : param.index < run.gathered.program.tables.vars.size :=
          Nat.lt_of_lt_of_le isOld run.gathered_extends.size_vars
        exact absurd new.1 (by omega)
      · rintro rfl
        exact absurd new.1 (Nat.not_le.mpr (Array.getElem?_eq_some_iff.mp inBase).1)
      · exact Tables.isGlobal_of_scope taken (by simp [Plan.structEntry])

section Filling

variable (bounded : ∀ size, sizes size → 0 < size ∧ size < 2 ^ 31)
  (hasRules : category.layoutRules = some rules) (isIn : category.isOut = false)
  (dependent : run.main ∈ run.dependents) {interp : Interpretation} {values : VariableId → Value}
  (readable : shader.HasValues category values ∧
    (rules.widenBools = true → interp.ReadsTruth shader.program.tables))

include bounded hasRules isIn dependent readable

/-- Declaring the instance and converting the parameter into it fills the instance. -/
theorem converts_fills {outer : OuterLayout} {holder : VariableId}
    (isOuter : run.gathering.outer = some outer) (apart : holder ≠ run.inst run.main)
    {fuel : Nat} {frame : Setting}
    (isInvoke : frame.invoke = threaded.program.call interp (fuel + 1) 1)
    (findsHolder : frame.locate holder = ⟨.frame 0 holder, []⟩)
    (findsInst : frame.locate (run.inst run.main) = ⟨.frame 0 (run.inst run.main), []⟩)
    {store changed : Store}
    (receives : run.Receives holder (shader.encode category rules values) store changed)
    (isValues : (run.gathering.members.map fun id => store (.global id)) =
      run.gathering.members.map values) :
    ∃ filled, frame.execAll [.declare (run.inst run.main) none,
        Plan.convert outer holder (run.inst run.main)] changed = some (some .next, filled) ∧
      run.coupling.stores store filled := by
  have isNew : ¬ Old shader (run.inst run.main) := Nat.not_lt.mpr (run.inst_new dependent).1
  obtain ⟨toInternal, -⟩ : rules.conversion = .toInternal ∧ rules.builtInsFirst = false := by
    simpa [isIn] using Category.layoutRules_cases hasRules
  obtain ⟨declared, isDeclared⟩ : ∃ declared, declared =
    changed.write ⟨.frame 0 (run.inst run.main), []⟩ (frame.initial (run.inst run.main)) := ⟨_, rfl⟩
  have keepsOthers {root : Root} (other : root ≠ .frame 0 (run.inst run.main)) :
      declared root = changed root := by
    rw [isDeclared]
    exact Store.write_of_ne _ _ other
  have held : declared (.frame 0 holder) = shader.encode category rules values :=
    (keepsOthers (by simpa using apart)).trans receives.held
  obtain ⟨after, calls, ends, clears, keeps⟩ := run.call_converts runnable.toGrounded bounded
    hasRules isOuter (fun _ => readable) fuel (some ⟨.frame 0 holder, []⟩)
    (declared (.frame 0 (run.inst run.main)))
    (fun id => (by simp : Root.frame 0 (run.inst run.main) ≠ .frame 1 id)) declared
  rw [toInternal] at calls ends
  refine ⟨after, ?_, receives.converted dependent clears (fun root matters outside => ?_)
    (by rw [ends, isValues]; rfl)⟩
  · have converts : frame.exec (Plan.convert outer holder (run.inst run.main)) declared =
        some (some .next, after) := by
      refine Setting.exec_convert findsHolder findsInst ?_
      rw [held, isInvoke]
      exact calls
    rw [Setting.execAll_cons_of_next (Setting.exec_declare findsInst), ← isDeclared,
      Setting.execAll_singleton, converts]
  · have notInst : root ≠ .frame 0 (run.inst run.main) := by
      rintro rfl
      exact isNew (matters _ _ rfl)
    exact (keeps root notInst outside).trans (keepsOthers notInst)

/-- What stands before the old body fills the instance. -/
theorem takes_fills {core whole : Block} {holder : VariableId} (takes : run.Takes core holder whole)
    {pairs : List (Param × Passed)} (placeless : ∀ pair ∈ pairs, pair.2.place = none) (fuel : Nat)
    {store changed : Store}
    (receives : run.Receives holder (shader.encode category rules values) store changed)
    (isValues : (run.gathering.members.map fun id => store (.global id)) =
      run.gathering.members.map values) :
    ∃ filled, (threaded.program.tables.frame interp (fuel + 1) 0 pairs
        (threaded.program.call interp (fuel + 1) 1)).execAll whole changed =
          (threaded.program.tables.frame interp (fuel + 1) 0 pairs
            (threaded.program.call interp (fuel + 1) 1)).execAll core filled ∧
      run.coupling.stores store filled := by
  cases takes with
  | handed unbridged =>
    refine ⟨changed, rfl, run.stores_filled dependent receives.holds (fun _ _ => rfl) ?_⟩
    rw [receives.held, run.encode_same runnable.toGrounded
      (fun size isSize => (bounded size isSize).1) hasRules unbridged, isValues]
  | converted isOuter apart isLocal =>
    obtain ⟨filled, runs, corresponds⟩ := run.converts_fills runnable bounded hasRules isIn dependent
      readable isOuter apart (rfl : (threaded.program.tables.frame interp (fuel + 1) 0 pairs
        (threaded.program.call interp (fuel + 1) 1)).invoke = _)
      (Tables.locate_placeless placeless isLocal)
      (Tables.locate_placeless placeless (run.inst_new dependent).2) receives isValues
    exact ⟨filled, Setting.execAll_nested runs, corresponds⟩

/-- The entry points go the same way, if the new one takes what the gathered variables hold. -/
theorem inputs_match {given others : VariableId → Option Value}
    (unset : ∀ id ∈ run.gathering.members, ∀ {entry : Variable},
      shader.program.tables.vars[id.index]? = some entry → entry.initializer = none)
    (isGiven : ∀ id ∈ run.gathering.members, given id = some (values id))
    (agree : ∀ id, id ∉ run.gathering.members → others id = given id)
    (fuel : Nat) (args : List Value) :
    run.coupling.Matches (Always Eq)
      (shader.program.enterMain interp (fuel + 2) args (shader.program.tables.start given))
      (threaded.program.enterMain interp (fuel + 2) (shader.encode category rules values :: args)
        (threaded.program.tables.start others)) := by
  obtain ⟨body, defined⟩ := run.enters.defined
  obtain ⟨signature, known, -⟩ := run.enters.isMain _ defined
  obtain ⟨holder, whole, isNew, copiedKnown, there, takes⟩ :=
    run.main_takes hasRules isIn dependent defined known
  obtain ⟨arrived, changed, enters, entersNew, globals, receives⟩ :=
    run.arrives_with runnable known agree args isNew (shader.encode category rules values)
  have isValues : (run.gathering.members.map fun id => arrived (.global id)) =
      run.gathering.members.map values := by
    simpa only [globals] using run.start_given unset isGiven
  obtain ⟨filled, runs, corresponds⟩ := run.takes_fills runnable bounded hasRules isIn dependent
    readable takes (@Passed.values_placeless (signature.prepend ⟨holder, .input⟩).params
      (shader.encode category rules values :: args)) fuel receives isValues
  rw [run.enters.run_body run.orderly.onceDefinitions known defined interp (fuel + 1) args enters,
    run.result_enters.run_body run.result_once copiedKnown there interp (fuel + 1)
      (shader.encode category rules values :: args) entersNew,
    Run.bind_congr_apply runs Flow.result]
  exact Matches.result (@main_matches _ _ _ _ run runnable _ defined _ known interp (fuel + 1) args
    [(⟨holder, .input⟩, ⟨none, shader.encode category rules values⟩)] (by simpa using isNew)
    (by simp) _ _ corresponds)

end Filling

end CategoryRun

end ShaderPipeline
