import ShaderPipeline.Proofs.Evolution

/-!
# Runs of lowering

A lowering that succeeds goes through the categories one after the other.
`LoweringStep` keeps the steps of a category that has variables, and `LoweringRun`
says for a list of categories which were passed over and which were lowered. What
every step leaves alone, a run leaves alone.
-/

namespace ShaderPipeline

/-! ## Pruning any program -/

namespace Tables

variable {tables after : Tables}

/-- Eliminating several variables puts exactly them out of use. -/
theorem eliminateAll_inv {ids : List VariableId} (made : tables.eliminateAll ids = .ok after) :
    after = tables.retire ids.contains := by
  have known : ∀ id ∈ ids, id.index < tables.vars.size := by
    induction ids generalizing tables with
    | nil => simp
    | cons id ids inductionHypothesis =>
      simp only [eliminateAll, Outcome.bind_eq_ok_iff] at made
      obtain ⟨middle, first, rest⟩ := made
      have inside : id.index < tables.vars.size := by
        by_contra outside
        simp [eliminate, updateVariable, outside] at first
      rw [eliminate_eq inside, Except.ok.injEq] at first
      subst first
      exact List.forall_mem_cons.mpr ⟨inside, by simpa using inductionHypothesis rest⟩
  rw [eliminateAll_eq known, Except.ok.injEq] at made
  exact made.symm

end Tables

namespace Prune

variable {program : Program} {refs : List VariableId}

/-- The variables that a program refers to are those that it mentions, those that its functions take
and those of its interface. -/
theorem referenced_inv (found : referenced program = .ok refs) :
    Refers program refs ∧ ∀ id, .var id ∈ program.globals → ∀ {entry : Variable},
      program.tables.vars[id.index]? = some entry → entry.isInterface = true → id ∈ refs := by
  simp only [referenced, Outcome.bind_eq_ok_iff] at found
  obtain ⟨anchors, anchorsOk, found⟩ := found
  split at found
  case isFalse => simp at found
  case isTrue =>
    simp only [Outcome.pure_eq_ok, Except.ok.injEq] at found
    subst found
    have each := Outcome.mapM_eq_ok_iff.mp anchorsOk
    have anchor {global : Global} {ids : List VariableId} (member : global ∈ program.globals)
        (anchors' : anchored program.tables global = .ok ids) :
        ids ⊆ anchors.flatten ++ mentioned program := by
      obtain ⟨others, own, same⟩ := Outcome.forall₂_exists_right each member
      obtain rfl : ids = others := Except.ok.inj (anchors'.symm.trans same)
      exact fun id inside => List.mem_append_left _ (List.mem_flatten.mpr ⟨ids, own, inside⟩)
    refine ⟨⟨?_, ?_⟩, ?_⟩
    · intro definition defined id own
      exact List.mem_append_right _ (List.mem_flatMap.mpr ⟨definition, defined, own⟩)
    · intro definition defined function there param own
      have found : program.tables.functionAt definition.1 = .ok function := by simpa using there
      exact anchor (Program.mem_definitions.mp defined) (by rw [anchored, found]; rfl)
        (List.mem_map_of_mem own)
    · intro id declared entry known isInterface
      have found : program.tables.variableAt id = .ok entry := by simpa using known
      refine anchor declared (by rw [anchored, found]; rfl) ?_
      simp [isInterface]

end Prune

/-- Pruning leaves a pruned program, whatever it is given. -/
theorem Program.prune_inv {program result : Program} (prunes : program.prune = .ok result) :
    ∃ refs marks, program.Pruned result refs marks ∧
      ∀ id, .var id ∈ program.globals → ∀ {entry : Variable},
        program.tables.vars[id.index]? = some entry → entry.isInterface = true → id ∈ marks := by
  obtain ⟨refs, found, -⟩ := Outcome.bind_eq_ok_iff.mp prunes
  obtain rfl := Except.ok.inj ((Program.prune_eq found).symm.trans prunes)
  obtain ⟨refers, interface⟩ := Prune.referenced_inv found
  exact ⟨refs, _, refers.pruned, fun id declared _ known isInterface =>
    refers.pruned.marked (interface id declared known isInterface)⟩

/-! ## Passing a category over -/

/-- If nothing is claimed, nothing is taken. -/
theorem Gathering.take_unclaimed {claims : VariableId → Result Bool} {globals : List Global}
    {taken : List VariableId} (unclaimed : ∀ id ∈ declaredIn globals, claims id = .ok false) :
    take claims globals taken = .ok (taken, globals) := by
  induction globals with
  | nil => rfl
  | cons global rest inductionHypothesis =>
    cases global with
    | var id =>
      rw [declaredIn_var, List.forall_mem_cons] at unclaimed
      simp [take, unclaimed.1, inductionHypothesis unclaimed.2]
    | struct | prototype | definition => simp [take, inductionHypothesis unclaimed]

namespace Shader

variable {shader result : Shader} {category : Category} {supplied : Option VariableId}

/-- A category that claims no declared variable is passed over, and only such a category is. -/
theorem gather_eq_none_iff : shader.gather category supplied = .ok (none, result) ↔
    result = shader ∧ ∀ id ∈ shader.program.globalVariables,
      category.claims shader.program.tables supplied id = .ok false := by
  constructor
  · intro gathers
    simp only [Shader.gather, Outcome.bind_eq_ok_iff] at gathers
    obtain ⟨⟨members, kept⟩, takes, gathers⟩ := gathers
    obtain ⟨tested, rfl, rfl⟩ := Gathering.take_inv takes
    split at gathers
    case isTrue empty =>
      simp only [Outcome.pure_eq_ok, Except.ok.injEq, Prod.mk.injEq, true_and] at gathers
      refine ⟨gathers.symm, fun id declared => ?_⟩
      obtain ⟨answer, isAnswer⟩ := tested id declared
      cases answer with
      | false => exact isAnswer
      | true =>
        have none := List.isEmpty_iff.mp empty
        rw [List.nil_append, List.filter_eq_nil_iff] at none
        exact absurd (Gathering.accepts_eq isAnswer) (none id declared)
    case isFalse =>
      simp only [Outcome.bind_eq_ok_iff] at gathers
      obtain ⟨found, -, gathers⟩ := gathers
      cases found <;> simp at gathers
  · rintro ⟨rfl, unclaimed⟩
    simp [Shader.gather, Gathering.take_unclaimed unclaimed]

end Shader

/-! ## Lowering a category -/

/-- The steps of lowering a category that has variables. -/
structure LoweringStep (shader : Shader) (category : Category) (supplied : Option VariableId)
    (gathering : Gathering) (result : Shader) where
  gathered : Shader
  threaded : Shader
  gathers : shader.gather category supplied = .ok (some gathering, gathered)
  threads : gathered.thread gathering
    (gathered.program.dependents gathering.members.contains) = .ok threaded
  prunes : Program.prune ⟨threaded.program.tables.retire gathering.members.contains,
    threaded.program.globals⟩ = .ok result.program
  valid : result.program.check = .ok ()
  invariance : result.invariance = threaded.invariance
  reflection : result.reflection = threaded.reflection

/-- What lowering several categories went through. -/
inductive LoweringRun (supplied : Option VariableId) :
    List Category → Shader → CategoryStructs → Shader → Prop where
  | done (shader : Shader) : LoweringRun supplied [] shader [] shader
  | passed {category : Category} {categories : List Category} {shader result : Shader}
      {structs : CategoryStructs}
      (unclaimed : ∀ id ∈ shader.program.globalVariables,
        category.claims shader.program.tables (category.suppliedTo supplied) id = .ok false)
      (rest : LoweringRun supplied categories shader structs result) :
      LoweringRun supplied (category :: categories) shader ((category, {}) :: structs) result
  | lowered {category : Category} {categories : List Category} {shader next result : Shader}
      {structs : CategoryStructs} {gathering : Gathering}
      (step : LoweringStep shader category (category.suppliedTo supplied) gathering next)
      (rest : LoweringRun supplied categories next structs result) :
      LoweringRun supplied (category :: categories) shader
        ((category, gathering.structs) :: structs) result

namespace Lowering

variable {shader result : Shader} {category : Category} {categories : List Category}
  {supplied : Option VariableId} {structs : CategoryStructs}

/-- Without an observer, a program is just checked. -/
theorem audit_eq_check (program : Program) :
    (audit (fun _ => .ok ()) program : Result Unit) = program.check := by
  unfold audit
  split
  case h_1 valid => exact valid.symm
  case h_2 failure invalid =>
    rw [invalid]
    split <;> rfl

/-- A category that was lowered was passed over or went through all steps. -/
theorem lowerCategory_inv {pair : Scoped TypeId}
    (lowers : lowerCategory (fun _ => .ok ()) supplied shader category =
      (.ok (pair, result) : Result _)) :
    (pair = {} ∧ shader.gather category (category.suppliedTo supplied) = .ok (none, result)) ∨
      ∃ gathering, pair = gathering.structs ∧
        Nonempty (LoweringStep shader category (category.suppliedTo supplied) gathering
          result) := by
  simp only [lowerCategory, lift_eq_self, Outcome.bind_eq_ok_iff] at lowers
  obtain ⟨⟨found, gathered⟩, gathers, lowers⟩ := lowers
  cases found with
  | none =>
    simp only [Outcome.pure_eq_ok, Except.ok.injEq, Prod.mk.injEq] at lowers
    obtain ⟨rfl, rfl⟩ := lowers
    exact .inl ⟨rfl, gathers⟩
  | some gathering =>
    simp only [Outcome.bind_eq_ok_iff, Outcome.exists_unit, true_and, Shader.install,
      Outcome.pure_eq_ok, Except.ok.injEq, Prod.mk.injEq] at lowers
    obtain ⟨installed, ⟨threaded, threads, tables, eliminates, program, prunes, rfl⟩, audited, rfl,
      rfl⟩ := lowers
    obtain rfl := Tables.eliminateAll_inv eliminates
    rw [audit_eq_check] at audited
    exact .inr ⟨gathering, rfl, ⟨gathered, threaded, gathers, threads, prunes, audited, rfl, rfl⟩⟩

/-- A lowering that succeeds is a run. -/
theorem lowerCategories_inv
    (lowers : lowerCategories (fun _ => .ok ()) supplied categories shader =
      (.ok (structs, result) : Result _)) :
    LoweringRun supplied categories shader structs result := by
  induction categories generalizing shader structs with
  | nil =>
    simp only [lowerCategories, Outcome.pure_eq_ok, Except.ok.injEq, Prod.mk.injEq] at lowers
    obtain ⟨rfl, rfl⟩ := lowers
    exact .done shader
  | cons category categories inductionHypothesis =>
    simp only [lowerCategories, Outcome.bind_eq_ok_iff, Outcome.pure_eq_ok, Except.ok.injEq,
      Prod.mk.injEq] at lowers
    obtain ⟨⟨pair, next⟩, first, ⟨others, last⟩, rest, rfl, rfl⟩ := lowers
    have run := inductionHypothesis rest
    rcases lowerCategory_inv first with ⟨rfl, gathers⟩ | ⟨gathering, rfl, ⟨step⟩⟩
    · obtain ⟨rfl, unclaimed⟩ := Shader.gather_eq_none_iff.mp gathers
      exact .passed unclaimed run
    · exact .lowered step run

/-- A category whose steps all succeed is lowered. -/
theorem lowerCategory_of_step {gathering : Gathering}
    (step : LoweringStep shader category (category.suppliedTo supplied) gathering result) :
    lowerCategory (fun _ => .ok ()) supplied shader category =
      (.ok (gathering.structs, result) : Result _) := by
  obtain ⟨gather⟩ := Shader.gather_inv step.gathers
  obtain ⟨threads, -⟩ := Shader.thread_adds step.threads
  have known : ∀ id ∈ gathering.members, id.index < step.threaded.program.tables.vars.size := by
    intro id member
    obtain ⟨-, entry, known⟩ := gather.member_known member
    obtain ⟨gone, later⟩ := (gather.evolves.trans threads.evolves).vars known
    exact (Array.getElem?_eq_some_iff.mp later).1
  have installs : step.gathered.install gathering
      (step.gathered.program.dependents gathering.members.contains) = .ok result := by
    simp only [Shader.install, step.threads, Tables.eliminateAll_eq known, step.prunes,
      Outcome.ok_bind, Outcome.pure_eq_ok, ← step.invariance, ← step.reflection]
  simp only [lowerCategory, lift_eq_self, step.gathers, installs, audit, step.valid,
    Outcome.ok_bind, Outcome.pure_eq_ok]

/-- A category that claims nothing changes nothing. -/
theorem lowerCategory_of_unclaimed
    (unclaimed : ∀ id ∈ shader.program.globalVariables,
      category.claims shader.program.tables (category.suppliedTo supplied) id = .ok false) :
    lowerCategory (fun _ => .ok ()) supplied shader category = (.ok ({}, shader) : Result _) := by
  have gathers := Shader.gather_eq_none_iff.mpr ⟨rfl, unclaimed⟩
  simp only [lowerCategory, lift_eq_self, gathers, Outcome.ok_bind, Outcome.pure_eq_ok]

/-- A lowering succeeds just in case there is a run. -/
theorem lowerCategories_eq_ok_iff :
    lowerCategories (fun _ => .ok ()) supplied categories shader =
        (.ok (structs, result) : Result _) ↔
      LoweringRun supplied categories shader structs result := by
  refine ⟨lowerCategories_inv, fun run => ?_⟩
  induction run with
  | done => rfl
  | passed unclaimed _ inductionHypothesis =>
    simp only [lowerCategories, lowerCategory_of_unclaimed unclaimed, inductionHypothesis,
      Outcome.ok_bind, Outcome.pure_eq_ok]
  | lowered step _ inductionHypothesis =>
    simp only [lowerCategories, lowerCategory_of_step step, inductionHypothesis, Outcome.ok_bind,
      Outcome.pure_eq_ok]

/-- Categories that claim nothing are all passed over. -/
theorem lowerCategories_unclaimed
    (unclaimed : ∀ category ∈ categories, ∀ id ∈ shader.program.globalVariables,
      category.claims shader.program.tables (category.suppliedTo supplied) id = .ok false) :
    lowerCategories (fun _ => .ok ()) supplied categories shader =
      (.ok (categories.map fun category => (category, {}), shader) : Result _) := by
  rw [lowerCategories_eq_ok_iff]
  induction categories with
  | nil => exact .done shader
  | cons category categories inductionHypothesis =>
    rw [List.forall_mem_cons] at unclaimed
    exact .passed unclaimed.1 (inductionHypothesis unclaimed.2)

end Lowering

namespace LoweringStep

variable {shader result : Shader} {category : Category} {supplied : Option VariableId}
  {gathering : Gathering}

/-- After gathering, the tables evolve to those of the result. -/
theorem gathered_evolves (step : LoweringStep shader category supplied gathering result) :
    step.gathered.program.tables.Evolves result.program.tables := by
  obtain ⟨threads, -⟩ := Shader.thread_adds step.threads
  obtain ⟨_, _, pruned, -⟩ := Program.prune_inv step.prunes
  rw [pruned.tables]
  exact threads.evolves.trans ((Tables.retire_evolves _).trans (Tables.retire_evolves _))

/-- The tables only grow, and some variables go out of use. -/
theorem evolves (step : LoweringStep shader category supplied gathering result) :
    shader.program.tables.Evolves result.program.tables := by
  obtain ⟨gather⟩ := Shader.gather_inv step.gathers
  exact gather.evolves.trans step.gathered_evolves

/-- The gathered variables are declared no more, and of the others those that are still marked.
Interface variables are. -/
theorem globalVariables (step : LoweringStep shader category supplied gathering result) :
    ∃ marks : List VariableId, result.program.globalVariables =
        (shader.program.globalVariables.filter fun id =>
          !Gathering.accepts (category.claims shader.program.tables supplied) id).filter
            marks.contains ∧
      ∀ id ∈ shader.program.globalVariables, ∀ {entry : Variable},
        shader.program.tables.vars[id.index]? = some entry → entry.isInterface = true →
          category.claims shader.program.tables supplied id = .ok false → id ∈ marks := by
  obtain ⟨gather⟩ := Shader.gather_inv step.gathers
  obtain ⟨threads, sameDeclared⟩ := Shader.thread_adds step.threads
  obtain ⟨_, marks, pruned, interface⟩ := Program.prune_inv step.prunes
  have declaredStill := sameDeclared.trans gather.globalVariables_eq
  refine ⟨marks, ?_, fun id declared entry known isInterface unclaimed => ?_⟩
  · rw [← declaredStill]
    exact pruned.globalVariables
  · have stays : id ∈ step.threaded.program.globalVariables := by
      rw [declaredStill, List.mem_filter]
      exact ⟨declared, by rw [Gathering.accepts_eq unclaimed]; rfl⟩
    obtain ⟨gone, retired⟩ := ((gather.evolves.trans threads.evolves).trans
      (Tables.retire_evolves gathering.members.contains)).vars known
    exact interface id (Gathering.mem_declaredIn.mp stays) retired
      (by rw [Variable.retire_isInterface, isInterface])

/-- What is still declared was, and the category does not claim it. -/
theorem mem_globalVariables (step : LoweringStep shader category supplied gathering result)
    {id : VariableId} (declared : id ∈ result.program.globalVariables) :
    id ∈ shader.program.globalVariables ∧
      category.claims shader.program.tables supplied id = .ok false := by
  obtain ⟨gather⟩ := Shader.gather_inv step.gathers
  obtain ⟨marks, left, -⟩ := step.globalVariables
  rw [left, List.mem_filter, List.mem_filter] at declared
  obtain ⟨⟨before, unclaimed⟩, -⟩ := declared
  obtain ⟨answer, tested⟩ := gather.tested id before
  rw [Gathering.accepts_eq tested, Bool.not_eq_true'] at unclaimed
  exact ⟨before, unclaimed ▸ tested⟩

end LoweringStep

end ShaderPipeline
