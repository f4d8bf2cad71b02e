import ShaderPipeline.Lowering
import ShaderPipeline.Proofs.Orderly

/-!
# Threading is one substitution

Threading goes through the program twice, first for the calls and then for the
mentions, and makes replacements on the way. The outcome does not show it: every
body is changed by one substitution, made of one map of functions and of the
instance of the function that the body belongs to.
-/

namespace ShaderPipeline

namespace Gathering

/-- Calls of dependent functions become calls of their replacements with an instance in front, and
gathered variables become fields of that instance, or the instance itself if it was supplied. -/
def threading (gathering : Gathering) (dependents : List FunctionId)
    (replace : FunctionId → FunctionId) (holder : VariableId) : Substitution where
  call callee args :=
    if callee ∈ dependents then .call (replace callee) (.var holder :: args) else .call callee args
  symbol id :=
    if id ∈ gathering.members then
      if gathering.supplied.isSome then .var holder
      else .field (.var holder) (gathering.members.idxOf id)
    else .var id

/-- The new body of the entry point around its old one. It works with a local variable, which it
declares first, or else with its first parameter; and it hands outputs over at its end and in place
of every bare return of the old body. -/
inductive Entered (gathering : Gathering) (tables : Tables) (copy : FunctionId)
    (holder : VariableId) (old : Block) : Block → Prop where
  | handed {entry : Function} {params : List Param}
      (outside : gathering.category.alwaysLocal = false ∧ gathering.outer = none)
      (known : tables.functions[copy.index]? = some entry)
      (taken : entry.params = ⟨holder, .input⟩ :: params) :
      Entered gathering tables copy holder old old
  | wrapped {entering : Block}
      (inside : gathering.category.alwaysLocal = true ∨ gathering.outer.isSome = true)
      (plain : gathering.category.isOut = false) :
      Entered gathering tables copy holder old
        (.declare holder none :: entering ++ [.block old])
  | returning {entering : Block} {external : VariableId} (out : gathering.category.isOut = true) :
      Entered gathering tables copy holder old
        (.declare holder none :: entering ++
          .block (Plan.replaceReturns old (Plan.epilogue gathering holder external)) ::
            Plan.epilogue gathering holder external)

/-- What becomes of a declaration under one substitution. -/
inductive Substituted (gathering : Gathering) (dependents : List FunctionId) (tables : Tables)
    (main : FunctionId) (replace : FunctionId → FunctionId) (inst : FunctionId → VariableId) :
    Global → Global → Prop where
  | struct (type : TypeId) : Substituted gathering dependents tables main replace inst
      (.struct type) (.struct type)
  | var (id : VariableId) : Substituted gathering dependents tables main replace inst
      (.var id) (.var id)
  | prototype (function : FunctionId) : Substituted gathering dependents tables main replace inst
      (.prototype function) (.prototype (replace function))
  | helper {function : FunctionId} (body : Block) (helps : function ≠ main) :
      Substituted gathering dependents tables main replace inst (.definition function body)
        (.definition (replace function)
          (Block.subst body (gathering.threading dependents replace (inst function))))
  | independent (body : Block) (free : main ∉ dependents) :
      Substituted gathering dependents tables main replace inst (.definition main body)
        (.definition main body)
  | entry {body wrapped : Block} (dependent : main ∈ dependents)
      (entered : Entered gathering tables (replace main) (inst main)
        (Block.subst body (gathering.threading dependents replace (inst main))) wrapped) :
      Substituted gathering dependents tables main replace inst (.definition main body)
        (.definition (replace main) wrapped)

end Gathering

namespace ThreadRun

variable {shader result : Shader} {plan : Plan} {main : FunctionId}

/-- The function that stands for a function after the run. -/
def replace (run : ThreadRun shader plan main result) (function : FunctionId) : FunctionId :=
  if function ∈ plan.dependents then run.final.replacement function else function

/-- The instance that a function works with after the run. -/
def inst (run : ThreadRun shader plan main result) (function : FunctionId) : VariableId :=
  run.final.holder plan function

/-- The substitution of a run is made of its map of functions. -/
theorem substitution_eq (run : ThreadRun shader plan main result) (holder : VariableId) :
    plan.substitution run.final holder =
      plan.threading plan.dependents run.replace holder := by
  have calls : (plan.substitution run.final holder).call =
      (plan.threading plan.dependents run.replace holder).call := by
    funext callee args
    simp only [Plan.substitution, Plan.callSubstitution, Gathering.threading,
      List.contains_iff_mem, ThreadRun.replace]
    split <;> rfl
  have symbols : (plan.substitution run.final holder).symbol =
      (plan.threading plan.dependents run.replace holder).symbol := by
    funext id
    simp only [Plan.substitution, Plan.symbolSubstitution, Plan.access, Gathering.threading,
      List.contains_iff_mem]
  cases left : plan.substitution run.final holder
  cases right : plan.threading plan.dependents run.replace holder
  simp_all

/-- The replacement of a dependent function works with the function's instance. -/
theorem instanceOf_eq (run : ThreadRun shader plan main result) {function : FunctionId}
    (dependent : function ∈ plan.dependents) :
    Plan.instanceOf plan.toGathering run.final.tables run.final.locals (run.replace function) =
      .ok (run.inst function) := by
  obtain ⟨copy, lookup⟩ := run.replaced function dependent
  have same : run.replace function = copy := by
    simp [ThreadRun.replace, dependent, Threading.replacement, lookup]
  exact same ▸ (run.coherent.instanceOf_eq run.ground dependent lookup).1

/-- How the replacement of a dependent function came about. -/
theorem made (run : ThreadRun shader plan main result) {function : FunctionId}
    (dependent : function ∈ plan.dependents) :
    ∃ entry, shader.program.tables.functions[function.index]? = some entry ∧
      run.base.functions[function.index]? = some entry ∧
      (entry.isMain = true ↔ function = main) ∧
      run.final.updated.lookup function = some (run.replace function) ∧
      Threading.Made plan run.base run.final function entry (run.replace function) := by
  obtain ⟨entry, known⟩ := run.ground.known function dependent
  obtain ⟨copy, lookup⟩ := run.replaced function dependent
  have same : run.replace function = copy := by
    simp [ThreadRun.replace, dependent, Threading.replacement, lookup]
  have isMain := run.ground.onlyMain function dependent entry known
  exact ⟨entry, run.ready.functions ▸ known, known, isMain, same ▸ lookup,
    same ▸ run.coherent.made dependent known lookup⟩

/-- A function that was handed an instance has it as its first parameter. -/
theorem prepend_inst (run : ThreadRun shader plan main result) {function : FunctionId}
    (dependent : function ∈ plan.dependents) {entry : Function} {holder : VariableId}
    (copied : run.final.tables.functions[(run.replace function).index]? =
      some (entry.prepend ⟨holder, .input⟩))
    (noLocal : (entry.isMain && plan.hasLocal) = false) : holder = run.inst function := by
  have head := Plan.instanceOf_param copied noLocal (run.instanceOf_eq dependent)
  simpa [Function.prepend] using head

/-- A helper that was replaced takes its instance as the first parameter. -/
theorem helper_params (run : ThreadRun shader plan main result) {function : FunctionId}
    (dependent : function ∈ plan.dependents) (helps : function ≠ main) :
    ∃ entry, shader.program.tables.functions[function.index]? = some entry ∧
      result.program.tables.functions[(run.replace function).index]? =
        some (entry.prepend ⟨run.inst function, .input⟩) := by
  obtain ⟨entry, known, -, isMain, -, made⟩ := run.made dependent
  have notMain : entry.isMain = false := by simpa using mt isMain.mp helps
  obtain ⟨holder, -, -, -, copied⟩ := made.helper notMain
  obtain rfl := run.prepend_inst dependent copied (by simp [notMain])
  exact ⟨entry, known, run.tables ▸ copied⟩

/-- Only the entry point has its instance as a local variable. -/
theorem inst_local (run : ThreadRun shader plan main result) (dependent : main ∈ plan.dependents)
    (isLocal : plan.hasLocal = true) : run.locals.internal = some (run.inst main) := by
  obtain ⟨entry, -, known, isMain, -, made⟩ := run.made dependent
  obtain ⟨internal, inside⟩ := run.ground.internal (by simpa [Plan.hasLocal] using isLocal)
  obtain ⟨replaced, replacedKnown, sameMain⟩ := made.isMain run.coherent.adds known
  have holds := Plan.instanceOf_local replacedKnown (sameMain.trans (isMain.mpr rfl)) isLocal
    (run.instanceOf_eq dependent)
  rw [run.coherent.internal] at holds
  exact holds

/-- The instance of a helper is a new parameter. -/
theorem helper_entry (run : ThreadRun shader plan main result) {function : FunctionId}
    (dependent : function ∈ plan.dependents) (helps : function ≠ main) :
    result.program.tables.vars[(run.inst function).index]? = some plan.helperEntry := by
  obtain ⟨entry, -, -, isMain, -, made⟩ := run.made dependent
  have notMain : entry.isMain = false := by simpa using mt isMain.mp helps
  obtain ⟨holder, -, -, there, copied⟩ := made.helper notMain
  obtain rfl := run.prepend_inst dependent copied (by simp [notMain])
  exact run.tables ▸ there

/-- The entry point that is handed its instance takes it as a new parameter. -/
theorem main_handed (run : ThreadRun shader plan main result) (dependent : main ∈ plan.dependents)
    (handed : plan.hasLocal = false) {entry : Function}
    (known : shader.program.tables.functions[main.index]? = some entry) :
    result.program.tables.vars[(run.inst main).index]? = some plan.structEntry ∧
      result.program.tables.functions[(run.replace main).index]? =
        some (entry.prepend ⟨run.inst main, .input⟩) := by
  obtain ⟨other, otherKnown, -, isMain, -, made⟩ := run.made dependent
  obtain rfl : other = entry := by simpa [known] using otherKnown.symm
  obtain ⟨holder, -, -, there, copied⟩ := made.handed (isMain.mpr rfl) handed
  obtain rfl := run.prepend_inst dependent copied (by simp [handed])
  exact ⟨run.tables ▸ there, run.tables ▸ copied⟩

/-- The instance of a dependent function is a variable in use that holds the struct. -/
theorem inst_known (run : ThreadRun shader plan main result) {function : FunctionId}
    (dependent : function ∈ plan.dependents) :
    ∃ entry, result.program.tables.vars[(run.inst function).index]? = some entry ∧
      entry.type = plan.internal ∧ entry.eliminated = false := by
  by_cases helps : function = main
  · subst helps
    by_cases isLocal : plan.hasLocal = true
    · have inside := (run.ready.internal _ (run.inst_local dependent isLocal)).2
      exact ⟨_, run.tables ▸ run.coherent.adds.vars inside, rfl, rfl⟩
    · have noLocal : plan.hasLocal = false := by simpa using isLocal
      obtain ⟨entry, known, -, -, -, -⟩ := run.made dependent
      have same : plan.outer = none := by
        simpa [Plan.hasLocal] using (Bool.or_eq_false_iff.mp noLocal).2
      exact ⟨_, (run.main_handed dependent noLocal known).1,
        by simp [Plan.structEntry, Gathering.external, same], rfl⟩
  · exact ⟨_, run.helper_entry dependent helps, rfl, rfl⟩

/-- The new body of an entry point with a local instance stands around the old one. -/
theorem main_surrounded (run : ThreadRun shader plan main result)
    (dependent : main ∈ plan.dependents) (isLocal : plan.hasLocal = true) {entry : Function}
    (known : shader.program.tables.functions[main.index]? = some entry) :
    ∃ copied entering leaving,
      result.program.tables.functions[(run.replace main).index]? = some copied ∧
      plan.Surrounds run.base run.locals result.program.tables entry (run.inst main) copied
        entering leaving ∧
      ∀ {old wrapped : Block}, plan.wrapMain run.final.tables run.final.locals
          (run.final.replacement main) old = .ok wrapped →
        wrapped = entering ++ .block (plan.nest leaving old) :: leaving := by
  obtain ⟨other, otherKnown, baseKnown, -, lookup, -⟩ := run.made dependent
  obtain rfl : other = entry := by simpa [known] using otherKnown.symm
  have same : run.final.replacement main = run.replace main := by
    simp [ThreadRun.replace, dependent]
  obtain ⟨internal, copied, entering, leaving, inside, there, surrounds, wrapsAll⟩ :=
    run.coherent.surrounds run.ground dependent baseKnown lookup isLocal
  obtain rfl : internal = run.inst main := by
    simpa [inside] using run.inst_local dependent isLocal
  refine ⟨copied, entering, leaving, run.tables ▸ there, run.tables ▸ surrounds, ?_⟩
  intro old wrapped wraps
  rw [same, wrapsAll old, Except.ok.injEq] at wraps
  exact wraps.symm

/-- The new body of the entry point stands around the old one. -/
theorem entered (run : ThreadRun shader plan main result) (dependent : main ∈ plan.dependents)
    {old wrapped : Block}
    (wraps : plan.wrapMain run.final.tables run.final.locals (run.final.replacement main) old =
      .ok wrapped) :
    plan.Entered result.program.tables (run.replace main) (run.inst main) old wrapped := by
  obtain ⟨entry, known, -, -, -, -⟩ := run.made dependent
  by_cases isLocal : plan.hasLocal = true
  · obtain ⟨copied, entering, leaving, -, surrounds, wrapsAll⟩ :=
      run.main_surrounded dependent isLocal known
    obtain rfl := wrapsAll wraps
    have isLocal : plan.category.alwaysLocal = true ∨ plan.outer.isSome = true := by
      simpa [Plan.hasLocal] using isLocal
    have plain (other : plan.category.entry ≠ .returnsStruct) : plan.nest [] old = old := by
      simp [Plan.nest, Category.isOut_eq_false other]
    cases surrounds with
    | kept shape =>
      rw [plain (by simp [shape])]
      exact .wrapped isLocal (Category.isOut_eq_false (by simp [shape]))
    | returning shape =>
      have isOut := Category.isOut_eq_true shape
      simp only [Plan.nest, isOut, if_true]
      exact .returning isOut
    | fieldParams shape | textureParams shape | indexParam shape | converted shape =>
      rw [plain (by simp [shape])]
      exact .wrapped isLocal (Category.isOut_eq_false (by simp [shape]))
  · have handed : plan.category.alwaysLocal = false ∧ plan.outer = none := by
      simpa [Plan.hasLocal] using isLocal
    obtain rfl : old = wrapped := by simpa [Plan.wrapMain, handed] using wraps
    exact .handed handed (run.main_handed dependent (by simpa using isLocal) known).2 rfl

/-- Every declaration is changed by the substitution that the run's maps make. -/
theorem substituted (run : ThreadRun shader plan main result) :
    List.Forall₂ (plan.Substituted plan.dependents result.program.tables main run.replace run.inst)
      shader.program.globals result.program.globals := by
  refine Outcome.forall₂_imp_mem run.renewed fun global member changed renewed => ?_
  cases renewed with
  | struct type => exact .struct type
  | var id => exact .var id
  | prototype function =>
    have same : run.final.replacement function = run.replace function := by
      by_cases dependent : function ∈ plan.dependents
      · simp [ThreadRun.replace, dependent]
      · rw [run.coherent.replacement_eq_self (run.declared.prototypes member) dependent]
        simp [ThreadRun.replace, dependent]
    exact same ▸ .prototype function
  | @independent function body free =>
    by_cases enters : function = main
    · subst enters
      exact .independent body free
    · have same : run.replace function = function := by simp [ThreadRun.replace, free]
      have unchanged : Block.subst body
          (plan.threading plan.dependents run.replace (run.inst function)) = body := by
        refine Block.subst_eq_self (fun callee called => ?_) fun id mentioned => ?_
        · have outside : callee ∉ plan.dependents :=
            mt (run.declared.calls member callee called) free
          funext args
          simp [Gathering.threading, outside]
        · have outside : id ∉ plan.members := mt (run.declared.symbols member id mentioned) free
          simp [Gathering.threading, outside]
      have substituted : plan.Substituted plan.dependents result.program.tables main run.replace
          run.inst _ _ := .helper body enters
      rwa [same, unchanged] at substituted
  | @helper function body dependent helps =>
    have same : run.final.replacement function = run.replace function := by
      simp [ThreadRun.replace, dependent]
    rw [same, run.substitution_eq]
    exact .helper body helps
  | entry dependent wraps =>
    have same : run.final.replacement main = run.replace main := by
      simp [ThreadRun.replace, dependent]
    have entered := run.entered dependent wraps
    rw [run.substitution_eq] at entered
    exact same ▸ .entry dependent entered

/-- A run leaves no entry point that would have to return the struct and returns a value. -/
theorem void_of_returns (run : ThreadRun shader plan main result)
    (dependent : main ∈ plan.dependents) (shape : plan.category.entry = .returnsStruct)
    {entry : Function} (known : shader.program.tables.functions[main.index]? = some entry) :
    entry.returnType = .void := by
  obtain ⟨other, otherKnown, -, isMain, -, made⟩ := run.made dependent
  obtain rfl : other = entry := by simpa [known] using otherKnown.symm
  have enters : other.isMain = true := isMain.mpr rfl
  generalize run.replace main = copy at made
  cases made with
  | stays _ other => simp [shape] at other
  | copied _ replaced =>
    cases replaced with
    | helper helps => simp [helps] at enters
    | returning _ _ void => exact void
    | fieldParams _ other | textureParams _ other | indexParam _ other | structParam _ other =>
      simp [shape] at other

end ThreadRun

/-- The entry point would have to return the category's struct, but returns a value. -/
def Shader.RefusesMain (gathered : Shader) (gathering : Gathering) (main : FunctionId) : Prop :=
  gathering.category.isOut = true ∧
    main ∈ gathered.program.dependents gathering.members.contains ∧
    ∃ entry, gathered.program.tables.functions[main.index]? = some entry ∧
      entry.returnType ≠ .void

/-- Threading a gathered category changes every declaration, where it stands, by one simultaneous
substitution. It does so unless the entry point would have to return the struct and returns a value,
and then it reports just that. -/
theorem Shader.thread_substitutes {shader gathered : Shader} {category : Category}
    {supplied : Option VariableId} {gathering : Gathering} (orderly : shader.program.Orderly)
    (gathers : shader.gather category (category.suppliedTo supplied) =
      .ok (some gathering, gathered)) :
    ∃ main, shader.program.Enters main ∧
      (gathered.RefusesMain gathering main →
        gathered.thread gathering (gathered.program.dependents gathering.members.contains) =
          report (.nonVoidMain category)) ∧
      (¬ gathered.RefusesMain gathering main → ∃ result replace inst,
        gathered.thread gathering (gathered.program.dependents gathering.members.contains) =
          .ok result ∧
        (∀ function ∉ gathered.program.dependents gathering.members.contains,
          replace function = function) ∧
        (∀ function ∈ gathered.program.dependents gathering.members.contains, function ≠ main →
          ∃ entry, gathered.program.tables.functions[function.index]? = some entry ∧
            result.program.tables.functions[(replace function).index]? =
              some (entry.prepend ⟨inst function, .input⟩)) ∧
        List.Forall₂ (gathering.Substituted
            (gathered.program.dependents gathering.members.contains) result.program.tables main
            replace inst)
          gathered.program.globals result.program.globals) := by
  obtain ⟨run⟩ := gather_inv gathers
  have only : (category.suppliedTo supplied).isSome = true → category = .suppliedUniforms := by
    unfold Category.suppliedTo
    split
    · exact fun _ => ‹_›
    · simp
  obtain ⟨enters, fits⟩ := run.fits orderly only
  refine ⟨run.main, enters, ?_⟩
  rcases thread_run fits with ⟨refused, shape, dependent, entry, known, value⟩ |
    ⟨result, threads, initials, ⟨threaded⟩⟩
  · have refuses : gathered.RefusesMain gathering run.main :=
      ⟨Category.isOut_eq_true shape, dependent, entry, known, value⟩
    rw [run.sameCategory] at refused
    exact ⟨fun _ => refused, fun accepted => absurd refuses accepted⟩
  · constructor
    · rintro ⟨out, dependent, entry, known, value⟩
      have shape : gathering.category.entry = .returnsStruct := by
        by_contra other
        simp [Category.isOut_eq_false other] at out
      exact absurd (threaded.void_of_returns dependent shape known) value
    · intro accepted
      refine ⟨result, threaded.replace, threaded.inst, threads, fun function free => ?_,
        fun function dependent helps => threaded.helper_params dependent helps,
        threaded.substituted⟩
      simp [ThreadRun.replace, free]

/-- The variable that `Shader.storing` stores in is gathered and threaded through both functions. -/
theorem Shader.thread_substitutes_storing : ∃ gathering gathered result main replace inst,
    storing.gather .mutableGlobals none = .ok (some gathering, gathered) ∧
    gathered.program.dependents gathering.members.contains = [⟨0⟩, ⟨1⟩] ∧
    gathered.thread gathering (gathered.program.dependents gathering.members.contains) =
      .ok result ∧
    List.Forall₂ (gathering.Substituted
        (gathered.program.dependents gathering.members.contains) result.program.tables main
        replace inst)
      gathered.program.globals result.program.globals := by
  obtain ⟨gathering, gathered, gathers, dependents, plain⟩ : ∃ gathering gathered,
      storing.gather .mutableGlobals none = .ok (some gathering, gathered) ∧
        gathered.program.dependents gathering.members.contains = [⟨0⟩, ⟨1⟩] ∧
        gathering.category.isOut = false := ⟨_, _, rfl, by decide, rfl⟩
  obtain ⟨main, -, -, threads⟩ := @thread_substitutes storing gathered .mutableGlobals none
    gathering storing_orderly gathers
  obtain ⟨result, replace, inst, threaded, -, -, substituted⟩ := threads (by simp [RefusesMain, plain])
  exact ⟨gathering, gathered, result, main, replace, inst, gathers, dependents, threaded, substituted⟩

end ShaderPipeline
