import ShaderPipeline.Proofs.Semantics.Threaded

/-!
# Runs of the entry point

The entry point is called once, with values that have no place. Its frame is made,
its parameters are filled, and its body runs. After a category was threaded
through it, the new body first fills the instance; from then on the old body does
the same as before.
-/

namespace ShaderPipeline

namespace Tables

variable {tables : Tables} {depth : Nat}

/-- Entering a call ends, and changes the parameters only. -/
theorem enter_ends (pairs : List (Param × Passed)) (store : Store) :
    ∃ after, tables.enter depth pairs store = some (some (), after) ∧
      ∀ root, (∀ pair ∈ pairs, root ≠ .frame depth pair.1.variableId) →
        after root = store root := by
  induction pairs generalizing store with
  | nil => exact ⟨store, rfl, fun _ _ => rfl⟩
  | cons pair pairs inductionHypothesis =>
    obtain ⟨middle, copies, keeps⟩ : ∃ middle,
        tables.copyIn depth pair store = some (some (), middle) ∧
          ∀ root, root ≠ .frame depth pair.1.variableId → middle root = store root := by
      unfold copyIn
      cases tables.aliased pair with
      | some place => exact ⟨_, rfl, fun _ _ => rfl⟩
      | none =>
        cases pair.1.direction with
        | output => exact ⟨_, rfl, fun _ _ => rfl⟩
        | input | inputOutput => exact ⟨_, rfl, fun root other => Store.write_of_ne _ _ other⟩
    obtain ⟨after, enters, keepsAll⟩ := inductionHypothesis middle
    refine ⟨after, by rw [enter, Run.bind_of_some copies, enters], fun root apart => ?_⟩
    rw [List.forall_mem_cons] at apart
    exact (keepsAll root apart.2).trans (keeps root apart.1)

/-- Entering a call changes its own frame only. -/
theorem enter_keeps {pairs : List (Param × Passed)} {store after : Store}
    (enters : tables.enter depth pairs store = some (some (), after)) {root : Root}
    (outside : ∀ id, root ≠ .frame depth id) : after root = store root := by
  obtain ⟨other, also, keeps⟩ := @enter_ends tables depth pairs store
  obtain rfl : after = other := by simpa [enters] using also
  exact keeps root fun pair _ => outside _

/-- Entering with one value writes it to the parameter. -/
theorem enter_value (id : VariableId) (value : Value) (store : Store) :
    tables.enter depth [(⟨id, .input⟩, ⟨none, value⟩)] store =
      some (some (), store.write ⟨.frame depth id, []⟩ value) := by
  have noPlace : tables.aliased (⟨id, .input⟩, ⟨none, value⟩) = none := by simp [aliased]
  simp only [enter, copyIn, noPlace]
  rfl

/-- A local variable that stands for no place of a caller is found in its frame. -/
theorem locate_frame {pairs : List (Param × Passed)} {id : VariableId}
    (unaliased : ∀ pair ∈ pairs, pair.1.variableId = id → tables.aliased pair = none)
    (isLocal : tables.isGlobal id = false) :
    tables.locate depth pairs id = ⟨.frame depth id, []⟩ := by
  have noPlace : (pairs.find? fun pair => pair.1.variableId == id).bind tables.aliased = none := by
    rw [Option.bind_eq_none_iff]
    intro pair found
    exact unaliased pair (List.mem_of_find?_eq_some found) (by simpa using List.find?_some found)
  simp [locate, noPlace, isLocal]

/-- Arguments without a place give none to a parameter. -/
theorem locate_placeless {pairs : List (Param × Passed)}
    (placeless : ∀ pair ∈ pairs, pair.2.place = none) {id : VariableId}
    (isLocal : tables.isGlobal id = false) :
    tables.locate depth pairs id = ⟨.frame depth id, []⟩ :=
  locate_frame (fun pair member _ => by simp [aliased, placeless pair member]) isLocal

/-- Nothing is copied back to arguments without a place. -/
theorem leave_placeless {pairs : List (Param × Passed)}
    (placeless : ∀ pair ∈ pairs, pair.2.place = none) : tables.leave depth pairs = pure () := by
  induction pairs with
  | nil => rfl
  | cons pair pairs inductionHypothesis =>
    rw [List.forall_mem_cons] at placeless
    have nothing : tables.copyBack depth pair = pure () := by
      unfold copyBack
      rw [placeless.1]
      split <;> simp_all
    rw [leave, nothing, Run.pure_bind, inductionHypothesis placeless.2]

end Tables

/-- Arguments that are given as values have no place. -/
theorem Passed.values_placeless {params : List Param} {args : List Value} :
    ∀ pair ∈ params.zip (Passed.values args), pair.2.place = none := by
  intro pair member
  obtain ⟨value, -, same⟩ := List.mem_map.mp (List.of_mem_zip member).2
  rw [← same]

/-- The body of an entry point runs once its frame is made. -/
theorem Program.Enters.run_body {program : Program} {main : FunctionId} (enters : program.Enters main)
    (once : (program.definitions.map Prod.fst).Nodup) {signature : Function} {body : Block}
    (known : program.tables.functions[main.index]? = some signature)
    (defined : (main, body) ∈ program.definitions) (interp : Interpretation) (fuel : Nat)
    (args : List Value) {store arrived : Store}
    (arrives : program.tables.enter 0 (signature.params.zip (Passed.values args))
      (program.tables.clear 0 store) = some (some (), arrived)) :
    program.enterMain interp (fuel + 1) args store =
      ((program.tables.frame interp fuel 0 (signature.params.zip (Passed.values args))
        (program.call interp fuel 1)).execAll body >>= Flow.result) arrived := by
  rw [enters.enterMain_eq]
  simp only [Program.call, known, Program.body?_of_mem once defined]
  rw [Run.bind_of_some (Run.modify_apply _ store)]
  rw [Run.bind_of_some arrives]
  simp only [Tables.leave_placeless Passed.values_placeless, Run.pure_bind]

/-- A block of one statement runs like the statement. -/
theorem Setting.execAll_singleton (setting : Setting) (stmt : Stmt) :
    setting.execAll [stmt] = setting.exec stmt := by
  rw [execAll, ← Run.bind_pure (setting.exec stmt), Run.bind_assoc]
  congr 1
  funext flow
  cases flow <;> rfl

/-- After a statement that goes on, the others run. -/
theorem Setting.execAll_cons_of_next {setting : Setting} {stmt : Stmt} {stmts : Block}
    {store after : Store} (runs : setting.exec stmt store = some (some .next, after)) :
    setting.execAll (stmt :: stmts) store = setting.execAll stmts after := by
  rw [execAll, Run.bind_of_some runs]

/-- What follows statements that ended goes on from where they did. -/
theorem Setting.execAll_append_of_next {setting : Setting} {first second : Block}
    {store after : Store} (runs : setting.execAll first store = some (some .next, after)) :
    setting.execAll (first ++ second) store = setting.execAll second after := by
  rw [execAll_append, Run.bind_of_some runs]

/-- A body in a nested block runs once what stands before it has ended. -/
theorem Setting.execAll_nested {setting : Setting} {entering body : Block} {store filled : Store}
    (enters : setting.execAll entering store = some (some .next, filled)) :
    setting.execAll (entering ++ [.block body]) store = setting.execAll body filled := by
  rw [execAll_append_of_next enters, execAll_singleton, exec]

namespace Coupling

variable {members : List VariableId} {old : VariableId → Prop} {holder : VariableId}
  {store other changed : Store}

/-- New variables of a frame do not matter, as long as they hold no instance. -/
theorem Holds.frame_new (holds : Holds members old none store other)
    (keeps : ∀ root, (∀ depth id, root = .frame depth id → old id) → changed root = other root) :
    Holds members old none store changed where
  globals id known free := (keeps _ (by simp)).trans (holds.globals id known free)
  frames depth id known := by
    rw [keeps _ (by rintro _ _ ⟨⟩; exact known)]
    exact holds.frames depth id known
  held := by simp

/-- Stores correspond once the instance is filled. -/
theorem Holds.fill (holds : Holds members old none store other) (fresh : ¬ old holder)
    (keeps : ∀ root, root ≠ .frame 0 holder → changed root = other root)
    (filled : changed (.frame 0 holder) = .aggregate (members.map fun id => store (.global id))) :
    Holds members old (some holder) store changed where
  globals id known free := (keeps _ (by simp)).trans (holds.globals id known free)
  frames depth id known := by
    refine (keeps _ ?_).trans (holds.frames depth id known)
    rintro ⟨⟩
    exact fresh known
  held other isHolder := Option.some.inj isHolder ▸ filled

end Coupling

namespace CategoryRun

open Coupling

variable {shader threaded : Shader} {category : Category} {sizes : Nat → Prop}
  (run : CategoryRun shader category none threaded)
  (runnable : shader.program.Runnable sizes)

include runnable

/-- Apart from the instance, the stores correspond from the start. What is given to the gathered
variables does not matter to the new program. -/
theorem holds_start {given others : VariableId → Option Value}
    (agree : ∀ id, id ∉ run.gathering.members → others id = given id) :
    Holds run.gathering.members (Old shader) none (shader.program.tables.start given)
      (threaded.program.tables.start others) where
  globals id known free := by
    have there := Array.getElem?_eq_getElem known
    have same := run.extended.initial runnable.acyclic runnable.closed known
    simp only [Tables.start, there, run.extended.vars there, same, agree id free]
  frames _ id known := run.extended.initial runnable.acyclic runnable.closed known
  held := by simp

/-- Apart from the instance, the stores correspond when the parameters of the entry point are
filled. What the new one takes in front goes to new variables. -/
theorem arrives {signature : Function}
    (known : shader.program.tables.functions[run.main.index]? = some signature)
    (args : List Value) {front : List (Param × Passed)}
    (fresh : ∀ pair ∈ front, ¬ Old shader pair.1.variableId) {store other : Store}
    (holds : Holds run.gathering.members (Old shader) none store other) :
    ∃ arrived middle changed,
      shader.program.tables.enter 0 (signature.params.zip (Passed.values args))
        (shader.program.tables.clear 0 store) = some (some (), arrived) ∧
      threaded.program.tables.enter 0 front (threaded.program.tables.clear 0 other) =
        some (some (), middle) ∧
      threaded.program.tables.enter 0 (front ++ signature.params.zip (Passed.values args))
        (threaded.program.tables.clear 0 other) = some (some (), changed) ∧
      Holds run.gathering.members (Old shader) none arrived changed ∧
      (∀ id, arrived (.global id) = store (.global id)) ∧
      ∀ id, ¬ Old shader id → changed (.frame 0 id) = middle (.frame 0 id) := by
  have isOld : ∀ pair ∈ signature.params.zip (Passed.values args),
      Old shader pair.1.variableId :=
    fun pair member => runnable.params known _ (List.of_mem_zip member).1
  obtain ⟨arrived, enters, keeps⟩ := @Tables.enter_ends shader.program.tables 0
    (signature.params.zip (Passed.values args)) (shader.program.tables.clear 0 store)
  obtain ⟨middle, begins, keepsFront⟩ := @Tables.enter_ends threaded.program.tables 0 front
    (threaded.program.tables.clear 0 other)
  obtain ⟨changed, goesOn, keepsNew⟩ := @Tables.enter_ends threaded.program.tables 0
    (signature.params.zip (Passed.values args)) middle
  refine ⟨arrived, middle, changed, enters, begins, ?_, ?_, fun id => ?_, fun id isNew => ?_⟩
  · rw [Tables.enter_append, Run.bind_of_some begins, goesOn]
  · have begun : Holds run.gathering.members (Old shader) none
        (shader.program.tables.clear 0 store) middle := by
      refine (run.holds_clear runnable (.inl rfl) holds).frame_new fun root matters =>
        keepsFront root fun pair member isRoot => ?_
      exact fresh pair member (matters _ _ isRoot)
    let coupling := Coupling.threading run.gathering.members (Old shader) none run.members_once
      (by simp)
    have matched := @simulates_enter coupling shader.program.tables threaded.program.tables 0 _ _
      (pairs_zip (passes_values args) signature.params)
      (fun pair member => run.extended.isReference (isOld pair member))
      (fun pair member => .frame 0 [] (isOld pair member)) _ _ begun
    rw [enters, goesOn] at matched
    cases matched with
    | done kept => exact kept
  · exact keeps _ (by simp)
  · refine keepsNew _ fun pair member same => isNew ?_
    obtain rfl : id = pair.1.variableId := by simpa using same
    exact isOld pair member

omit runnable in
/-- Where the entry point has no instance, there is nothing to fill. -/
theorem stores_free (outside : run.main ∉ run.dependents) {store other : Store}
    (holds : Holds run.gathering.members (Old shader) none store other) :
    run.coupling.stores store other := by
  change Holds _ _ run.home _ _
  rwa [home, if_neg outside]

omit runnable in
/-- The stores correspond once the instance is filled. -/
theorem stores_filled (dependent : run.main ∈ run.dependents) {store other filled : Store}
    (holds : Holds run.gathering.members (Old shader) none store other)
    (keeps : ∀ root, root ≠ .frame 0 (run.inst run.main) → filled root = other root)
    (held : filled (.frame 0 (run.inst run.main)) =
      .aggregate (run.gathering.members.map fun id => store (.global id))) :
    run.coupling.stores store filled := by
  have isHome : run.home = some (run.inst run.main) := if_pos dependent
  change Holds _ _ run.home _ _
  rw [isHome]
  exact holds.fill (run.home_new _ isHome) keeps held

omit runnable in
/-- The entry point has the instance in its own frame, as a local variable or as a parameter. -/
theorem locate_inst (dependent : run.main ∈ run.dependents) {pairs : List (Param × Passed)}
    (placeless : ∀ pair ∈ pairs, pair.2.place = none) :
    threaded.program.tables.locate 0 pairs (run.inst run.main) = run.homePlace :=
  Tables.locate_placeless placeless (run.inst_new dependent).2

/-- Once the stores correspond, the old body of the entry point and the substituted one go the same
way. -/
theorem main_matches {body : Block} (defined : (run.main, body) ∈ shader.program.definitions)
    {signature : Function}
    (known : shader.program.tables.functions[run.main.index]? = some signature)
    {interp : Interpretation} {fuel : Nat} {args : List Value} {front : List (Param × Passed)}
    (fresh : ∀ pair ∈ front, ¬ Old shader pair.1.variableId)
    (placeless : ∀ pair ∈ front, pair.2.place = none) {store other : Store}
    (kept : run.coupling.stores store other) :
    run.coupling.Matches (Flows (Always Eq))
      ((shader.program.tables.frame interp fuel 0 (signature.params.zip (Passed.values args))
        (shader.program.call interp fuel 1)).execAll body store)
      ((threaded.program.tables.frame interp fuel 0
        (front ++ signature.params.zip (Passed.values args))
        (threaded.program.call interp fuel 1)).execAll
          (Block.subst body (run.change run.main)) other) :=
  execAll_subst (pairs_zip (passes_values args) signature.params)
    (fun _ member => runnable.params known _ (List.of_mem_zip member).1) fresh runnable defined
    (fun dependent => ⟨dependent, run.locate_inst dependent
      (List.forall_mem_append.mpr ⟨placeless, Passed.values_placeless⟩)⟩)
    ((run.programs runnable).call interp (Nat.le_refl fuel) (.inr rfl) (Nat.le_refl 1)) _ _ kept

omit runnable in
/-- An entry point that does not depend on the category stays as it is. -/
theorem main_free {body : Block} (defined : (run.main, body) ∈ shader.program.definitions)
    (outside : run.main ∉ run.dependents) :
    (run.replace run.main, Block.subst body (run.change run.main)) ∈
      threaded.program.definitions := by
  rw [run.replace_eq_self outside, run.subst_free defined outside]
  exact run.free_defined (run.gathered_defined defined) outside

omit runnable in
/-- Without fuel, neither entry point gets anywhere. -/
theorem enterMain_zero (run : CategoryRun shader category none threaded) {interp : Interpretation}
    {args others : List Value} {store other : Store} :
    run.coupling.Matches (Always Eq) (shader.program.enterMain interp 0 args store)
      (threaded.program.enterMain interp 0 others other) := by
  rw [run.enters.enterMain_eq, run.result_enters.enterMain_eq]
  exact .exhausted

/-- An instance that was given no value holds what the gathered variables hold without one. -/
theorem initial_inst (acyclic : threaded.program.tables.Acyclic) (notTextures : category ≠ .textures)
    (dependent : run.main ∈ run.dependents) :
    threaded.program.tables.initial (run.inst run.main) =
      .aggregate (run.gathering.members.map shader.program.tables.initial) := by
  obtain ⟨entry, known, isStruct, -⟩ := run.inst_known dependent
  obtain ⟨fields, struct, isFields⟩ := run.member_field rfl
  simp only [Tables.initial, known, isStruct, Tables.Acyclic.zero_struct acyclic struct,
    Value.aggregate.injEq]
  rw [← List.forall₂_eq_eq_eq, List.forall₂_map_left_iff, List.forall₂_map_right_iff]
  refine isFields.flip.imp fun field id stands => ?_
  obtain ⟨entry, known, isField⟩ := stands
  simp only [Tables.FieldFor, notTextures, if_false] at isField
  simp only [Tables.initial, known, isField]
  exact Tables.Acyclic.zero_extends runnable.acyclic run.extended (runnable.closed.vars known)

end CategoryRun

end ShaderPipeline
