import ShaderPipeline.Proofs.Semantics.Inputs
import ShaderPipeline.Proofs.Semantics.Leaving
import ShaderPipeline.Proofs.WellTypedRun

/-!
# Handing the outputs over

An entry point whose outputs became an instance of a struct returns that, in the
external layout, wherever it returned before and at its end. So once the old body
has ended, whatever way it took, the result is the encoded value of what the
outputs hold, and no other global has changed since.
-/

namespace ShaderPipeline

namespace Coupling

variable {α β γ : Type} {coupling weaker : Coupling} {post : α → β → Store → Store → Prop}
  {after : α → γ → Store → Store → Prop}

/-- Only some globals are watched. -/
def watching (watched : VariableId → Prop) : Coupling :=
  agreeing False fun root => ∃ id, root = .global id ∧ watched id

/-- The second of two runs goes on for itself, and what it does can be told. -/
theorem Matches.follow {first : Option (Option α × Store)} {second : Run β} {goes : β → Run γ}
    {other : Store} (begins : coupling.Matches post first (second other))
    (exact : ¬ coupling.lags ∧ ¬ coupling.leads)
    (aborts : ∀ store other, coupling.stores store other → weaker.stores store other)
    (continues : ∀ value result store other, coupling.stores store other →
      post value result store other → ∃ last final, goes result other = some (some last, final) ∧
        weaker.stores store final ∧ after value last store final) :
    weaker.Matches after first ((second >>= goes) other) := by
  rw [Run.bind_apply]
  generalize second other = right at begins ⊢
  cases begins with
  | exhausted => exact .exhausted
  | lag lags => exact absurd lags exact.1
  | lead leads => exact absurd leads exact.2
  | aborted kept => exact .aborted (aborts _ _ kept)
  | done kept holds =>
    obtain ⟨last, final, runs, keeps, isAfter⟩ := continues _ _ _ _ kept holds
    simp only [runs]
    exact .done keeps isAfter

end Coupling

namespace Setting

/-- The value that is handed over: the instance, once it is converted if the layouts differ. -/
def handedOver (setting : Setting) (outer : Option OuterLayout) (internal external : VariableId) :
    Run Value :=
  match outer with
  | none => setting.value (.var external)
  | some layout => do
    let _ ← setting.exec (Plan.convert layout internal external)
    setting.value (.var external)

/-- Handing the outputs over ends by returning them. -/
theorem returns_handover (setting : Setting) (outer : Option OuterLayout)
    (internal external : VariableId) :
    setting.Returns (Plan.handover outer internal external)
      (setting.handedOver outer internal external) := by
  have last : setting.execAll [.ret (some (.var external))] =
      setting.value (.var external) >>= fun value => pure (.ret value) := by
    rw [execAll_singleton, exec]
  unfold Returns Plan.handover handedOver
  cases outer with
  | none => simpa using last
  | some layout =>
    simp only [Option.map_some, Option.toList_some, List.singleton_append, execAll_cons, last,
      Run.bind_assoc, Plan.convert, exec]
    rfl

/-- The value of a whole variable. -/
theorem value_var {setting : Setting} {id : VariableId} {root : Root}
    (finds : setting.locate id = ⟨root, []⟩) (store : Store) :
    setting.value (.var id) store = some (some (store root), store) := by
  simp only [value, eval, finds, Run.pure_bind, Run.load_apply, Operand.load, Store.read,
    Value.read_nil]

end Setting

namespace CategoryRun

open Coupling

variable {shader threaded : Shader} {category : Category} {rules : LayoutRules}
  {sizes : Nat → Prop} (run : CategoryRun shader category none threaded)

/-- The variable that holds the outputs in the external layout. -/
structure Output (external : VariableId) : Prop where
  new : ¬ Old shader external
  isLocal : threaded.program.tables.isGlobal external = false
  same : external = run.inst run.main ↔ run.gathering.outer = none

/-- What stands before the old body of an entry point that returns the outputs. -/
def declaring (external : VariableId) : Block :=
  .declare (run.inst run.main) none ::
    if run.gathering.outer.isSome then [.declare external none] else []

/-- The new entry point returns the outputs wherever it leaves. -/
theorem main_returns (isOut : category.isOut = true) (dependent : run.main ∈ run.dependents)
    {body : Block} (defined : (run.main, body) ∈ shader.program.definitions) {signature : Function}
    (known : shader.program.tables.functions[run.main.index]? = some signature) :
    signature.returnType = .void ∧ ∃ external, run.Output external ∧
      threaded.program.tables.functions[(run.replace run.main).index]? =
        some (signature.returning run.gathering.external) ∧
      (run.replace run.main, run.declaring external ++
        .block (Plan.replaceReturns (Block.subst body (run.change run.main))
          (Plan.handover run.gathering.outer (run.inst run.main) external)) ::
        Plan.handover run.gathering.outer (run.inst run.main) external) ∈
          threaded.program.definitions := by
  have sameCategory : run.plan.category = category := run.gather.sameCategory
  have isShape : run.plan.category.entry = .returnsStruct := by
    rw [sameCategory]
    revert isOut
    cases category <;> decide
  have noInitials : run.plan.initials = [] := List.eq_nil_iff_forall_not_mem.mpr
    fun ⟨position, value⟩ member => by
      obtain ⟨rfl, -⟩ := run.initials_position member
      simp [Category.isOut] at isOut
  rcases run.main_turned dependent defined known with
    ⟨noLocal, -⟩ | ⟨_, _, _, isLocal, copiedKnown, surrounds, there⟩
  · simp [Plan.hasLocal, Category.alwaysLocal, isShape] at noLocal
  · cases surrounds with
    | kept other | fieldParams other | textureParams other | indexParam other | converted other =>
      simp [isShape] at other
    | @returning external _ void outside =>
      have inside := run.thread.inst_local dependent isLocal
      obtain ⟨new, side, outputThere⟩ := run.thread.ready.external _ outside
      have uniform := run.thread.ready.uniform _ _ inside outside
      have nests (leaving core : Block) : run.plan.nest leaving core =
          Plan.replaceReturns core leaving := by
        rw [Plan.nest, sameCategory, if_pos isOut]
      simp only [nests, Plan.startValues, noInitials, List.map_nil, List.append_nil] at there
      refine ⟨void, external, ⟨fun isOld => ?_, ?_, eq_comm.trans uniform⟩, copiedKnown, there⟩
      · exact Nat.not_lt.mpr new (Nat.lt_of_lt_of_le isOld run.gathered_extends.size_vars)
      · have known := run.thread.coherent.adds.vars outputThere
        rw [← run.thread.tables] at known
        exact Tables.isGlobal_of_scope known (by simp [Plan.localEntry])

/-- What stands before the old body changes new variables only, and leaves the instance with what
the outputs hold at first. -/
theorem declaring_fills {external : VariableId} (output : run.Output external) {setting : Setting}
    (findsInst : setting.locate (run.inst run.main) = ⟨.frame 0 (run.inst run.main), []⟩)
    (findsExternal : setting.locate external = ⟨.frame 0 external, []⟩)
    (dependent : run.main ∈ run.dependents) (store : Store) :
    ∃ filled, setting.execAll (run.declaring external) store = some (some .next, filled) ∧
      (∀ root, (∀ depth id, root = .frame depth id → Old shader id) → filled root = store root) ∧
      filled (.frame 0 (run.inst run.main)) = setting.initial (run.inst run.main) := by
  have isNew : ¬ Old shader (run.inst run.main) := Nat.not_lt.mpr (run.inst_new dependent).1
  have apart {id : VariableId} (new : ¬ Old shader id) {root : Root}
      (matters : ∀ depth id, root = .frame depth id → Old shader id) : root ≠ .frame 0 id := by
    rintro rfl
    exact new (matters _ _ rfl)
  let declared := store.write ⟨.frame 0 (run.inst run.main), []⟩ (setting.initial (run.inst run.main))
  have keeps (root : Root) (matters : ∀ depth id, root = .frame depth id → Old shader id) :
      declared root = store root := Store.write_of_ne _ _ (apart isNew matters)
  rw [declaring, Setting.execAll_cons_of_next (Setting.exec_declare findsInst)]
  cases isOuter : run.gathering.outer with
  | none => exact ⟨declared, by simp [Setting.execAll, declared], keeps, Store.write_root _ _ _⟩
  | some outer =>
    have different : Root.frame 0 (run.inst run.main) ≠ .frame 0 external := by
      simpa [isOuter, eq_comm] using output.same
    refine ⟨declared.write ⟨.frame 0 external, []⟩ (setting.initial external), ?_,
      fun root matters => ?_, ?_⟩
    · exact (Setting.execAll_cons_of_next (Setting.exec_declare findsExternal)).trans
        (by simp [Setting.execAll, declared])
    · rw [Store.write_of_ne _ _ (apart output.new matters), keeps root matters]
    · rw [Store.write_of_ne _ _ different]
      exact Store.write_root _ _ _

variable (runnable : shader.program.Runnable sizes)

include runnable

/-- What is handed over is the encoded value of what the outputs hold. -/
theorem hands_over (bounded : ∀ size, sizes size → 0 < size ∧ size < 2 ^ 31)
    (hasRules : category.layoutRules = some rules) (isOut : category.isOut = true)
    (dependent : run.main ∈ run.dependents) {external : VariableId} (output : run.Output external)
    (interp : Interpretation) (fuel : Nat) {pairs : List (Param × Passed)}
    (placeless : ∀ pair ∈ pairs, pair.2.place = none) {store other : Store}
    (kept : run.coupling.stores store other) :
    ∃ final, (threaded.program.tables.frame interp (fuel + 1) 0 pairs
        (threaded.program.call interp (fuel + 1) 1)).handedOver run.gathering.outer
          (run.inst run.main) external other =
            some (some (shader.encode category rules fun id => store (.global id)), final) ∧
      ∀ id, final (.global id) = other (.global id) := by
  have filled := fun size isSize => (bounded size isSize).1
  have isHome : run.home = some (run.inst run.main) := if_pos dependent
  have held : other (.frame 0 (run.inst run.main)) =
      .aggregate (run.gathering.members.map fun id => store (.global id)) := kept.held _ isHome
  obtain ⟨-, instLocal⟩ := run.inst_new dependent
  generalize isFrame : threaded.program.tables.frame interp (fuel + 1) 0 pairs
    (threaded.program.call interp (fuel + 1) 1) = frame
  have finds {id : VariableId} (isLocal : threaded.program.tables.isGlobal id = false) :
      frame.locate id = ⟨.frame 0 id, []⟩ := by
    rw [← isFrame]
    exact Tables.locate_placeless placeless isLocal
  have reads := Setting.value_var (finds output.isLocal)
  cases isOuter : run.gathering.outer with
  | none =>
    refine ⟨other, ?_, fun _ => rfl⟩
    rw [Setting.handedOver, reads, output.same.mpr isOuter, held,
      run.encode_same runnable.toGrounded filled hasRules isOuter]
  | some outer =>
    obtain ⟨toExternal, -⟩ : rules.conversion = .toExternal ∧ rules.widenBools = false := by
      simpa [isOut] using Category.layoutRules_cases hasRules
    obtain ⟨after, calls, ends, -, keeps⟩ := @call_converts _ _ _ _ run _ _
      runnable.toGrounded bounded hasRules isOuter interp (fun id => store (.global id))
      (by simp [isOut]) fuel (some ⟨.frame 0 (run.inst run.main), []⟩)
      (.frame 0 external) (other (.frame 0 external)) (by simp) other
    rw [toExternal] at calls ends
    have converts : frame.exec (Plan.convert outer (run.inst run.main) external) other =
        some (some .next, after) := by
      refine Setting.exec_convert (finds instLocal) (finds output.isLocal) ?_
      rw [held, ← isFrame]
      exact calls
    refine ⟨after, ?_, fun id => keeps _ (by simp) (by simp)⟩
    change (frame.exec (Plan.convert outer _ external) >>= fun _ => frame.value (.var external))
      other = _
    rw [Run.bind_of_some converts, reads, ends]
    rfl

/-- The instance starts with what the outputs start with, as nothing sets them. -/
theorem initial_outputs (filled : ∀ size, sizes size → 0 < size)
    (hasRules : category.layoutRules = some rules) (dependent : run.main ∈ run.dependents)
    {given : VariableId → Option Value}
    (unset : ∀ id ∈ run.gathering.members, ∀ {entry : Variable},
      shader.program.tables.vars[id.index]? = some entry → entry.initializer = none)
    (notGiven : ∀ id ∈ run.gathering.members, given id = none) :
    threaded.program.tables.initial (run.inst run.main) = .aggregate
      (run.gathering.members.map fun id => shader.program.tables.start given (.global id)) := by
  rw [run.initial_inst runnable (run.result_acyclic runnable.toGrounded fun _ => filled)
    (Category.ne_textures hasRules) dependent]
  refine congrArg _ (List.map_congr_left fun id member => ?_)
  obtain ⟨entry, known⟩ := (run.gather.member_known member).2
  simp [Tables.start, known, unset id member known, notGiven id member]

/-- The entry points go the same way, and the new one returns the encoded outputs of the old one. -/
theorem outputs_match (bounded : ∀ size, sizes size → 0 < size ∧ size < 2 ^ 31)
    (hasRules : category.layoutRules = some rules) (isOut : category.isOut = true)
    (dependent : run.main ∈ run.dependents) {given others : VariableId → Option Value}
    (unset : ∀ id ∈ run.gathering.members, ∀ {entry : Variable},
      shader.program.tables.vars[id.index]? = some entry → entry.initializer = none)
    (notGiven : ∀ id ∈ run.gathering.members, given id = none)
    (agree : ∀ id, id ∉ run.gathering.members → others id = given id)
    (interp : Interpretation) (fuel : Nat) (args : List Value) :
    (watching (fun id => Old shader id ∧ id ∉ run.gathering.members)).Matches
      (fun _ result store _ => result = shader.encode category rules fun id => store (.global id))
      (shader.program.enterMain interp (fuel + 2) args (shader.program.tables.start given))
      (threaded.program.enterMain interp (fuel + 2) args (threaded.program.tables.start others)) := by
  obtain ⟨body, defined⟩ := run.enters.defined
  obtain ⟨signature, known, -⟩ := run.enters.isMain _ defined
  obtain ⟨void, external, output, copiedKnown, there⟩ := run.main_returns isOut dependent defined known
  obtain ⟨arrived, -, changed, enters, -, entersNew, holds, globals, -⟩ :=
    @arrives _ _ _ _ run runnable _ known args [] (by simp) _ _ (run.holds_start runnable agree)
  generalize isFrame : threaded.program.tables.frame interp (fuel + 1) 0
    (signature.params.zip (Passed.values args)) (threaded.program.call interp (fuel + 1) 1) = frame
  have finds {id : VariableId} (isLocal : threaded.program.tables.isGlobal id = false) :
      frame.locate id = ⟨.frame 0 id, []⟩ := by
    rw [← isFrame]
    exact Tables.locate_placeless Passed.values_placeless isLocal
  obtain ⟨filled, fills, keeps, ends⟩ := run.declaring_fills output
    (finds (run.inst_new dependent).2) (finds output.isLocal) dependent changed
  have isFirst : filled (.frame 0 (run.inst run.main)) =
      .aggregate (run.gathering.members.map fun id => arrived (.global id)) := by
    simp only [globals]
    rw [ends, ← isFrame]
    exact run.initial_outputs runnable (fun size isSize => (bounded size isSize).1) hasRules dependent
      unset notGiven
  have corresponds : run.coupling.stores arrived filled :=
    run.stores_filled dependent (holds.frame_new keeps) (fun _ _ => rfl) isFirst
  have bare : Block.Each Stmt.Bare (Block.subst body (run.change run.main)) :=
    (run.orderly.bare_returns defined known void).subst fun _ isBare => isBare.subst _
  rw [run.enters.run_body run.orderly.onceDefinitions known defined interp (fuel + 1) args enters,
    run.result_enters.run_body run.result_once copiedKnown there interp (fuel + 1) args entersNew]
  change Matches _ _ _ ((Setting.execAll (threaded.program.tables.frame interp (fuel + 1) 0
    (signature.params.zip (Passed.values args)) (threaded.program.call interp (fuel + 1) 1)) _ >>=
      Flow.result) changed)
  rw [isFrame, Run.bind_congr_apply (Setting.execAll_append_of_next fills) Flow.result,
    Setting.result_leaving (frame.returns_handover _ _ _) bare, ← isFrame]
  refine Matches.follow (Matches.result (@main_matches _ _ _ _ run runnable _ defined _ known interp
    (fuel + 1) args [] (by simp) (by simp) _ _ corresponds)) ⟨id, id⟩ (fun store other kept => ?_)
    fun value result store other kept _ => ?_
  · rintro _ ⟨id, rfl, isOld, free⟩
    exact kept.globals id isOld free
  · obtain ⟨final, runs, keeps⟩ := run.hands_over runnable bounded hasRules isOut dependent output
      interp fuel (@Passed.values_placeless signature.params args) kept
    refine ⟨_, final, runs, ?_, rfl⟩
    rintro _ ⟨id, rfl, isOld, free⟩
    exact (keeps id).trans (kept.globals id isOld free)

end CategoryRun

end ShaderPipeline
