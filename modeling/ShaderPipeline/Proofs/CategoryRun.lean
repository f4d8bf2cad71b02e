import ShaderPipeline.Proofs.Threading.Simultaneous
import ShaderPipeline.Proofs.Validity.Rules

/-!
# Runs of a category

A category is gathered and then threaded. `CategoryRun` joins the two runs, and
the lemmas here say what the program at the end has to do with the program at the
start: which variables are still declared, which functions stand for which, and
where the gathered values are found.
-/

namespace ShaderPipeline

namespace Layout

/-- The conversion of a field mentions the two structs and calls nothing. -/
def Converting (internal external : VariableId) : Expr → Prop :=
  Expr.Uses (fun id => id = internal ∨ id = external) (fun _ => False) fun _ => False

variable {internal external : VariableId}

/-- Selecting an element mentions no more than the base does. -/
theorem atPosition_converting {base : Expr} (converting : base.Every (Converting internal external))
    (position : List Nat) : (base.atPosition position).Every (Converting internal external) := by
  induction position generalizing base with
  | nil => exact converting
  | cons element position inductionHypothesis =>
    exact inductionHypothesis (Expr.every_index.mpr
      ⟨trivial, converting, by simp [Expr.int, Converting, Expr.Uses]⟩)

/-- Copying a value element by element mentions no more than the target and the source do. -/
theorem copy_converting (tables : Tables) {target value : Expr} (targetType valueType : TypeId)
    (isTarget : target.Every (Converting internal external))
    (isValue : value.Every (Converting internal external)) :
    Block.Every (Converting internal external) (copy tables target targetType value valueType) := by
  unfold copy
  split
  · simp [Block.Every, isTarget, isValue]
  · intro root member
    obtain ⟨stmt, own, rooted⟩ := Block.mem_roots.mp member
    obtain ⟨position, -, rfl⟩ := List.mem_map.mp own
    rw [Stmt.roots_assign, List.mem_pair] at rooted
    rcases rooted with rfl | rfl
    · exact atPosition_converting isTarget position
    · refine Expr.every_construct.mpr ⟨trivial, ?_⟩
      simpa using atPosition_converting isValue position

/-- The body of a conversion function mentions the two structs and calls nothing. -/
theorem convertBody_converting (tables : Tables) (conversion : Conversion)
    (placements : List Placement) :
    Block.Every (Converting internal external)
      (convertBody tables conversion internal external placements) := by
  have isOuter (place : Nat) :
      (Expr.field (.var external) place).Every (Converting internal external) := by
    simp [Converting, Expr.Uses]
  have isInner (source : Nat) (position : List Nat) :
      ((Expr.field (.var internal) source).atPosition position).Every
        (Converting internal external) :=
    atPosition_converting (by simp [Converting, Expr.Uses]) position
  intro root member
  obtain ⟨stmt, own, rooted⟩ := Block.mem_roots.mp member
  obtain ⟨block, chosen, inside⟩ := List.mem_flatten.mp own
  obtain ⟨place, bound, rfl⟩ := List.mem_mapIdx.mp chosen
  have every : Block.Every (Converting internal external)
      (convertField tables conversion internal external place placements[place]) := by
    unfold convertField
    cases conversion with
    | toExternal => exact copy_converting tables _ _ (isOuter place) (isInner _ _)
    | toInternal => exact copy_converting tables _ _ (isInner _ _) (isOuter place)
  exact every root (Block.mem_roots.mpr ⟨stmt, inside, rooted⟩)

end Layout

namespace Block

variable {rule : Expr → Prop} {block : Block}

/-- A rule for all parts of a block holds of the variables that the block mentions. -/
theorem Every.symbol (every : Every rule block) {id : VariableId} (mentioned : id ∈ block.symbols) :
    rule (.var id) := by
  obtain ⟨root, own, inside⟩ := mem_symbols_iff.mp mentioned
  exact every root own _ inside

/-- It also holds of the calls in the block, with their arguments. -/
theorem Every.call (every : Every rule block) {callee : FunctionId} (called : callee ∈ block.calls) :
    ∃ args, rule (.call callee args) := by
  obtain ⟨root, own, inside⟩ := mem_calls_iff.mp called
  obtain ⟨args, isCall⟩ := Expr.mem_calls_iff.mp inside
  exact ⟨args, every root own _ isCall⟩

end Block

/-- One category, gathered and threaded. -/
structure CategoryRun (shader : Shader) (category : Category) (supplied : Option VariableId)
    (result : Shader) where
  orderly : shader.program.Orderly
  only : supplied.isSome = true → category = .suppliedUniforms
  gathering : Gathering
  gathered : Shader
  initials : List (Nat × Constant)
  gather : GatherRun shader category supplied gathering gathered
  thread : ThreadRun gathered { gathering with
    dependents := gathered.program.dependents gathering.members.contains, initials }
    gather.main result

namespace CategoryRun

variable {shader result : Shader} {category : Category} {supplied : Option VariableId}

/-- The functions that depend on the category. -/
def dependents (run : CategoryRun shader category supplied result) : List FunctionId :=
  run.gathered.program.dependents run.gathering.members.contains

/-- What was threaded. -/
def plan (run : CategoryRun shader category supplied result) : Plan :=
  { run.gathering with dependents := run.dependents, initials := run.initials }

/-- The entry point before the run. -/
def main (run : CategoryRun shader category supplied result) : FunctionId := run.gather.main

/-- The function that stands for a function after the run. -/
def replace (run : CategoryRun shader category supplied result) : FunctionId → FunctionId :=
  run.thread.replace

/-- The instance that a function works with after the run. -/
def inst (run : CategoryRun shader category supplied result) : FunctionId → VariableId :=
  run.thread.inst

/-- The substitution in the body of a function. -/
def change (run : CategoryRun shader category supplied result) (function : FunctionId) :
    Substitution :=
  run.gathering.threading run.dependents run.replace (run.inst function)

variable (run : CategoryRun shader category supplied result)

/-- The program has an entry point, and what was gathered fits the program that it was gathered
from. -/
theorem fits : shader.program.Enters run.main ∧
    run.gathering.Fits run.gathered.program run.main :=
  run.gather.fits run.orderly run.only

/-- The program has one entry point. -/
theorem enters : shader.program.Enters run.main := run.fits.1

/-- No function is defined twice. -/
theorem once : (run.gathered.program.definitions.map Prod.fst).Nodup := run.fits.2.once

/-! ## Tables -/

/-- Gathering keeps what the tables hold. -/
theorem gathered_extends : shader.program.tables.Extends run.gathered.program.tables :=
  (run.gather.internal run.orderly.sound run.orderly.closed).2.1.toExtends.trans
    run.gather.extended

/-- Threading only adds variables and functions. -/
theorem threaded_adds : run.gathered.program.tables.Adds result.program.tables := by
  rw [run.thread.tables]
  exact run.thread.ready.adds.trans run.thread.coherent.adds

/-- The tables only grow. -/
theorem extended (run : CategoryRun shader category supplied result) :
    shader.program.tables.Extends result.program.tables :=
  run.gathered_extends.trans run.threaded_adds.toExtends

/-! ## Gathered variables -/

/-- The gathered variables are those of the globals that the category claims. -/
theorem mem_members {id : VariableId} :
    id ∈ run.gathering.members ↔ id ∈ shader.program.globalVariables ∧
      category.claims shader.program.tables supplied id = .ok true := by
  rw [run.gather.members, List.mem_filter]
  refine and_congr_right fun declared => ?_
  obtain ⟨answer, tested⟩ := run.gather.tested id declared
  rw [Gathering.accepts_eq tested, tested, Except.ok.injEq]

/-- The gathered variables are those that the category claims. -/
theorem claimed_eq (run : CategoryRun shader category none result) :
    shader.claimed category none = run.gathering.members :=
  run.gather.members.symm

/-- A gathered variable was declared, and the check knows it as a global one. -/
theorem member_declarable {id : VariableId} (member : id ∈ run.gathering.members) :
    ∃ entry, Validity.Declarable shader.program.tables .global id entry := by
  have declared := (run.gather.member_known member).1
  exact Validity.checkVariable_eq_ok_iff.mp
    ((Program.check_eq_ok_iff.mp run.orderly.valid).2 _ declared)

/-- Without a supplied instance, every gathered variable has its field. -/
theorem member_field (unsupplied : supplied = none) :
    ∃ fields, result.program.tables.types[run.gathering.internal.index]? =
        some (.struct (category.structName .internal) fields) ∧
      List.Forall₂ (fun id field => ∃ entry, shader.program.tables.vars[id.index]? = some entry ∧
        Tables.FieldFor category shader.program.tables result.program.tables entry field)
        run.gathering.members fields := by
  subst unsupplied
  obtain ⟨internal, -, -⟩ := run.gather.internal run.orderly.sound run.orderly.closed
  obtain ⟨fields, known, isFields⟩ := internal.isFields
  have extended := run.gather.extended.trans run.threaded_adds.toExtends
  refine ⟨fields, extended.types known, isFields.imp fun id field isField => ?_⟩
  obtain ⟨entry, entryKnown, isField⟩ := isField
  exact ⟨entry, entryKnown, isField.widen (fun isSampler => isSampler) extended⟩

/-- A supplied instance is the only gathered variable, and its type is the struct. -/
theorem member_supplied {given : VariableId} (isSupplied : supplied = some given) :
    run.gathering.members = [given] ∧ ∃ entry name fields,
      shader.program.tables.vars[given.index]? = some entry ∧
      run.gathering.internal = entry.type ∧
      shader.program.tables.types[entry.type.index]? = some (.struct name fields) := by
  have isSuppliedUniforms : category = .suppliedUniforms := run.only (by simp [isSupplied])
  subst isSupplied isSuppliedUniforms
  have all : ∀ id ∈ run.gathering.members, id = given := by
    intro id member
    have tested := (run.mem_members.mp member).2
    simp only [Category.claims, Outcome.bind_eq_ok_iff, Outcome.pure_eq_ok, Except.ok.injEq,
      decide_eq_true_eq] at tested
    obtain ⟨-, -, same⟩ := tested
    simpa using same.symm
  have once : run.gathering.members.Nodup := by
    rw [run.gather.members]
    exact run.orderly.onceVariables.filter _
  refine ⟨?_, ?_⟩
  · cases members : run.gathering.members with
    | nil => exact absurd members run.gather.filled
    | cons first rest =>
      rw [members] at all once
      obtain rfl := all first (by simp)
      cases rest with
      | nil => rfl
      | cons second rest =>
        obtain rfl := all second (by simp)
        simp at once
  · obtain ⟨internal, -, -⟩ := run.gather.internal run.orderly.sound run.orderly.closed
    exact internal.ofSupplied

/-- The instance of a dependent function holds the struct. -/
theorem inst_known {function : FunctionId} (dependent : function ∈ run.dependents) :
    ∃ entry, result.program.tables.vars[(run.inst function).index]? = some entry ∧
      entry.type = run.gathering.internal ∧ entry.eliminated = false :=
  run.thread.inst_known dependent

/-! ## Declarations -/

/-- Every declaration is renewed by one substitution, in which each function has its replacement and
its instance. -/
theorem substituted :
    List.Forall₂ (run.gathering.Substituted run.dependents result.program.tables run.main
      run.replace run.inst) run.gathered.program.globals result.program.globals :=
  run.thread.substituted

/-- A function that does not depend on the category stands for itself. -/
theorem replace_eq_self {function : FunctionId} (free : function ∉ run.dependents) :
    run.replace function = function := by
  have outside : function ∉ run.gathered.program.dependents run.gathering.members.contains := free
  simp [replace, ThreadRun.replace, outside]

/-- Threading declares no global variables and removes none. -/
theorem globalVariables_eq :
    result.program.globalVariables = run.gathered.program.globalVariables := by
  unfold Program.globalVariables
  have each := run.substituted
  generalize run.gathered.program.globals = before at each
  generalize result.program.globals = after at each
  induction each with
  | nil => rfl
  | cons head _ inductionHypothesis =>
    cases head <;> simp [List.filterMap_cons, Global.declared?, inductionHypothesis]

/-- The global variables that are left are declared once. -/
theorem globalVariables_once (run : CategoryRun shader category supplied result) :
    result.program.globalVariables.Nodup := by
  rw [run.globalVariables_eq]
  have moved := run.gather.globals_perm.filterMap Global.declared?
  rw [List.filterMap_append, run.gather.news_declared, List.append_nil] at moved
  refine moved.nodup_iff.mpr ?_
  exact run.orderly.onceVariables.sublist (List.filter_sublist.filterMap _)

/-- The global variables that are not gathered are still declared. -/
theorem mem_globalVariables {id : VariableId} :
    id ∈ result.program.globalVariables ↔
      id ∈ shader.program.globalVariables ∧ id ∉ run.gathering.members := by
  rw [run.globalVariables_eq]
  have isVar (program : Program) : id ∈ program.globalVariables ↔ .var id ∈ program.globals :=
    Gathering.mem_declaredIn
  rw [isVar, run.gather.mem_globals, or_iff_left (run.gather.var_not_new id), isVar]
  refine and_congr_right fun declared => ?_
  rw [run.gather.members, List.mem_filter, not_and]
  simp only [Gathering.stays, Bool.not_eq_true', Gathering.mem_declaredIn, declared, forall_const,
    Bool.not_eq_true]

section Bridge

variable {bridge : Bridge} (bridged : run.gather.bridge = some bridge)

include bridged

/-- The conversion function, if there is one, is defined after gathering. -/
theorem bridge_gathered :
    (bridge.function, bridge.body) ∈ run.gathered.program.definitions :=
  run.gather.definitions_perm.mem_iff.mpr (List.mem_append_right _ (by simp [bridged]))

/-- The conversion function calls nothing. -/
theorem bridge_silent (callee : FunctionId) : callee ∉ Block.calls bridge.body := by
  intro called
  obtain ⟨conversion, placements, body⟩ := run.gather.bridge_body bridged
  rw [body] at called
  obtain ⟨args, impossible⟩ := (Layout.convertBody_converting _ _ _).call called
  exact impossible

/-- The conversion function mentions its parameters only, which come after all variables. -/
theorem bridge_mentions {id : VariableId} (mentioned : id ∈ Block.symbols bridge.body) :
    shader.program.tables.vars.size ≤ id.index := by
  obtain ⟨-, grows, -⟩ := run.gather.internal run.orderly.sound run.orderly.closed
  obtain ⟨conversion, placements, body⟩ := run.gather.bridge_body bridged
  rw [body] at mentioned
  rw [← grows.sameVars]
  rcases (Layout.convertBody_converting _ _ _).symbol mentioned with rfl | rfl
  · exact Nat.le_refl _
  · exact Nat.le_succ _

/-- The conversion function does not depend on the category. -/
theorem bridge_free : bridge.function ∉ run.dependents := by
  intro dependent
  rcases Program.mem_dependents_inv run.once (run.bridge_gathered bridged) dependent with
    ⟨id, mentioned, gathered⟩ | ⟨callee, called, -⟩
  · obtain ⟨-, entry, known⟩ := run.gather.member_known (List.contains_iff_mem.mp gathered)
    have old := (Array.getElem?_eq_some_iff.mp known).1
    exact absurd old (Nat.not_lt.mpr (run.bridge_mentions bridged mentioned))
  · exact run.bridge_silent bridged callee called

end Bridge

/-- What is turned is an old definition or that of the conversion function. -/
theorem gathered_cases {definition : FunctionId × Block}
    (defined : definition ∈ run.gathered.program.definitions) :
    definition ∈ shader.program.definitions ∨
      ∃ bridge, run.gather.bridge = some bridge ∧ definition = (bridge.function, bridge.body) := by
  rcases List.mem_append.mp (run.gather.definitions_perm.mem_iff.mp defined) with old | new
  · exact .inl old
  · obtain ⟨bridge, bridged, rfl⟩ : ∃ bridge, run.gather.bridge = some bridge ∧
        (bridge.function, bridge.body) = definition := by simpa using new
    exact .inr ⟨bridge, bridged, rfl⟩

/-- A definition that depends on the category is an old one. -/
theorem dependent_old {definition : FunctionId × Block}
    (defined : definition ∈ run.gathered.program.definitions)
    (dependent : definition.1 ∈ run.dependents) : definition ∈ shader.program.definitions := by
  rcases run.gathered_cases defined with old | ⟨bridge, bridged, rfl⟩
  · exact old
  · exact absurd dependent (run.bridge_free bridged)

/-- A dependent function was defined at the start. -/
theorem dependent_defined {function : FunctionId} (dependent : function ∈ run.dependents) :
    ∃ body, (function, body) ∈ shader.program.definitions := by
  obtain ⟨⟨_, body⟩, defined, rfl⟩ := List.mem_map.mp (Program.dependents_subset dependent)
  exact ⟨body, run.dependent_old defined dependent⟩

/-- A helper that was replaced takes its instance as the first parameter. -/
theorem helper_params {function : FunctionId} (dependent : function ∈ run.dependents)
    (helps : function ≠ run.main) {entry : Function}
    (known : shader.program.tables.functions[function.index]? = some entry) :
    result.program.tables.functions[(run.replace function).index]? =
      some (entry.prepend ⟨run.inst function, .input⟩) := by
  obtain ⟨other, otherKnown, copied⟩ := run.thread.helper_params dependent helps
  obtain rfl : other = entry := by simpa [run.gathered_extends.functions known] using otherKnown.symm
  exact copied

/-- The functions that stand for the declared ones are declared. -/
theorem replace_declared {function : FunctionId}
    (declared : function ∈ run.gathered.program.declaredFunctions) :
    run.replace function ∈ result.program.declaredFunctions := by
  obtain ⟨global, member, isFunction⟩ := List.mem_filterMap.mp declared
  obtain ⟨changed, there, substituted⟩ := Outcome.forall₂_exists_right run.substituted member
  refine List.mem_filterMap.mpr ⟨changed, there, ?_⟩
  cases substituted with
  | struct | var => simp [Global.function?] at isFunction
  | prototype | helper | entry =>
    obtain rfl := Option.some.inj isFunction
    rfl
  | independent body free =>
    obtain rfl : run.main = function := Option.some.inj isFunction
    exact congrArg some (run.replace_eq_self free).symm

/-- A function that was declared is declared after the gathering. -/
theorem gathered_declared {function : FunctionId}
    (declared : function ∈ shader.program.declaredFunctions) :
    function ∈ run.gathered.program.declaredFunctions := by
  obtain ⟨global, member, isFunction⟩ := List.mem_filterMap.mp declared
  refine List.mem_filterMap.mpr ⟨global, run.gather.mem_globals.mpr (.inl ⟨member, ?_⟩), isFunction⟩
  cases global <;> simp_all [Gathering.stays, Global.function?]

/-- It is still declared after threading. -/
theorem bridge_declared {bridge : Bridge} (bridged : run.gather.bridge = some bridge) :
    bridge.function ∈ result.program.declaredFunctions := by
  rw [← run.replace_eq_self (run.bridge_free bridged)]
  refine run.replace_declared (List.mem_filterMap.mpr ⟨.definition bridge.function bridge.body,
    run.gather.mem_globals.mpr (.inr ?_), rfl⟩)
  simp [GatherRun.news, bridged, Bridge.globals]

/-! ## Definitions -/

/-- What becomes of a definition. -/
inductive Turns : FunctionId × Block → FunctionId × Block → Prop where
  | free {function : FunctionId} (body : Block) (outside : function ∉ run.dependents) :
      Turns (function, body) (function, body)
  | helper {function : FunctionId} (body : Block) (dependent : function ∈ run.dependents)
      (helps : function ≠ run.main) :
      Turns (function, body) (run.replace function, Block.subst body (run.change function))
  | handed (body : Block) (dependent : run.main ∈ run.dependents)
      (noLocal : run.plan.hasLocal = false) :
      Turns (run.main, body) (run.replace run.main, Block.subst body (run.change run.main))
  | wrapped (body : Block) {entry copied : Function} {entering leaving : Block}
      (dependent : run.main ∈ run.dependents) (isLocal : run.plan.hasLocal = true)
      (known : shader.program.tables.functions[run.main.index]? = some entry)
      (copiedKnown : result.program.tables.functions[(run.replace run.main).index]? = some copied)
      (surrounds : run.plan.Surrounds run.thread.base run.thread.locals result.program.tables entry
        (run.inst run.main) copied entering leaving) :
      Turns (run.main, body) (run.replace run.main,
        entering ++ .block (run.plan.nest leaving (Block.subst body (run.change run.main))) ::
          leaving)

/-- A definition turns into one of the replacement of its function. -/
theorem Turns.fst {run : CategoryRun shader category supplied result}
    {definition turned : FunctionId × Block} (turns : run.Turns definition turned) :
    turned.1 = run.replace definition.1 := by
  cases turns with
  | free _ outside => exact (run.replace_eq_self outside).symm
  | helper | handed | wrapped => rfl

/-- The replacement of a dependent function is the one that threading remembers at its end. -/
theorem final_replacement {function : FunctionId} (dependent : function ∈ run.dependents) :
    run.thread.final.replacement function = run.replace function := by
  have inside : function ∈ run.gathered.program.dependents run.gathering.members.contains :=
    dependent
  simp [replace, ThreadRun.replace, inside]

/-- The definitions are turned one by one. -/
theorem turns : List.Forall₂ run.Turns run.gathered.program.definitions
    result.program.definitions := by
  refine List.rel_filterMap (fun {global changed} renewed => ?_) run.thread.renewed
  cases renewed with
  | struct | var | prototype => exact .none
  | independent body free => exact .some (.free body free)
  | helper body dependent helps =>
    rw [run.final_replacement dependent, run.thread.substitution_eq]
    exact .some (.helper body dependent helps)
  | @entry body wrapped dependent wraps =>
    obtain ⟨entry, known, -⟩ := run.enters.isMain _ run.enters.defined.choose_spec
    have gatheredKnown := run.gathered_extends.functions known
    rw [run.thread.substitution_eq] at wraps
    rw [run.final_replacement dependent]
    by_cases isLocal : run.plan.hasLocal = true
    · obtain ⟨copied, entering, leaving, copiedKnown, surrounds, wrapsAll⟩ :=
        run.thread.main_surrounded dependent isLocal gatheredKnown
      obtain rfl := wrapsAll wraps
      exact .some (.wrapped body dependent isLocal known copiedKnown surrounds)
    · have noLocal : run.plan.hasLocal = false := by simpa using isLocal
      have handed : run.gathering.category.alwaysLocal = false ∧ run.gathering.outer = none := by
        simpa [Plan.hasLocal, plan] using noLocal
      obtain rfl : _ = wrapped := by simpa [Plan.wrapMain, handed] using wraps
      exact .some (.handed body dependent noLocal)

/-- What does not depend on the category stays as it was gathered. -/
theorem free_defined {definition : FunctionId × Block}
    (gathered : definition ∈ run.gathered.program.definitions)
    (free : definition.1 ∉ run.dependents) : definition ∈ result.program.definitions := by
  obtain ⟨turned, there, turns⟩ := Outcome.forall₂_exists_right run.turns gathered
  cases turns with
  | free => exact there
  | helper _ dependent | handed _ dependent | wrapped _ dependent => exact absurd dependent free

/-- Old definitions are among the ones that are turned. -/
theorem gathered_defined {definition : FunctionId × Block}
    (defined : definition ∈ shader.program.definitions) :
    definition ∈ run.gathered.program.definitions :=
  run.gather.definitions_perm.mem_iff.mpr (List.mem_append_left _ defined)

/-- What becomes of an entry point that depends on the category: it is handed the struct, or its
body is wrapped in what makes a local instance. -/
theorem main_turned (dependent : run.main ∈ run.dependents) {body : Block}
    (defined : (run.main, body) ∈ shader.program.definitions) {signature : Function}
    (known : shader.program.tables.functions[run.main.index]? = some signature) :
    (run.plan.hasLocal = false ∧ (run.replace run.main, Block.subst body (run.change run.main)) ∈
        result.program.definitions) ∨
      ∃ copied entering leaving, run.plan.hasLocal = true ∧
        result.program.tables.functions[(run.replace run.main).index]? = some copied ∧
        run.plan.Surrounds run.thread.base run.thread.locals result.program.tables signature
          (run.inst run.main) copied entering leaving ∧
        (run.replace run.main, entering ++
          .block (run.plan.nest leaving (Block.subst body (run.change run.main))) :: leaving) ∈
            result.program.definitions := by
  obtain ⟨turned, there, turns⟩ :=
    Outcome.forall₂_exists_right run.turns (run.gathered_defined defined)
  cases turns with
  | free _ outside => exact absurd dependent outside
  | helper _ _ helps => exact absurd rfl helps
  | handed _ _ noLocal => exact .inl ⟨noLocal, there⟩
  | wrapped _ _ isLocal isSignature copiedKnown surrounds =>
    obtain rfl := Option.some.inj (known.symm.trans isSignature)
    exact .inr ⟨_, _, _, isLocal, copiedKnown, surrounds, there⟩

/-- An entry point that depends on the variables of a category does so once they are gathered. -/
theorem main_dependent (run : CategoryRun shader category none result) {main : FunctionId}
    (enters : shader.program.Enters main)
    (depends : main ∈ shader.program.dependents (shader.claimed category none).contains) :
    run.main ∈ run.dependents := by
  obtain rfl := enters.unique run.enters
  rw [run.claimed_eq] at depends
  refine Program.dependents_least run.orderly.onceDefinitions (fun defined id mentioned wanted => ?_)
    (fun defined callee called dependent => ?_) depends
  · exact Program.mem_dependents_of_symbol run.once (run.gathered_defined defined) mentioned wanted
  · exact Program.mem_dependents_of_call run.once (run.gathered_defined defined) called dependent

/-- A substitution leaves the parts of an expression in it. -/
theorem subst_mem_nodes {function : FunctionId} {expr node : Expr} (inside : node ∈ expr.nodes) :
    node.subst (run.change function) ∈ (expr.subst (run.change function)).nodes := by
  refine Expr.subst_mem_nodes (fun callee args arg own node inside => ?_) inside
  have among := Expr.mem_nodesOfAll.mpr ⟨arg, own, inside⟩
  simp only [change, Gathering.threading]
  split <;> simp [Expr.nodes, Expr.nodesOfAll, among]

/-- The function that stands for a function is the entry point just in case that was. -/
theorem replace_isMain {definition : FunctionId × Block}
    (defined : definition ∈ run.gathered.program.definitions) :
    ∃ entry, result.program.tables.functions[(run.replace definition.1).index]? = some entry ∧
      (entry.isMain = true ↔ definition.1 = run.main) := by
  by_cases dependent : definition.1 ∈ run.dependents
  · obtain ⟨entry, -, known, isMain, -, made⟩ := run.thread.made dependent
    obtain ⟨replaced, there, same⟩ := made.isMain run.thread.coherent.adds known
    exact ⟨replaced, run.thread.tables ▸ there, by rw [same, isMain]; rfl⟩
  · obtain ⟨entry, known, isMain⟩ := run.fits.2.definitions definition defined
    rw [run.replace_eq_self dependent]
    exact ⟨entry, run.threaded_adds.functions known, isMain⟩

/-- A function that does not depend on the category does not become a replacement. -/
theorem replace_ne {function other : FunctionId} (dependent : function ∈ run.dependents)
    (free : other ∉ run.dependents)
    (known : other.index < run.gathered.program.tables.functions.size) :
    run.replace function ≠ other := by
  intro same
  obtain ⟨entry, -, -, -, -, made⟩ := run.thread.made dependent
  have sameCopy : run.thread.replace function = other := same
  rw [sameCopy] at made
  cases made with
  | stays => exact free dependent
  | copied since =>
    have larger := since.size_functions
    rw [run.thread.ready.functions] at larger
    exact absurd known (Nat.not_lt.mpr larger)

/-- No two functions are replaced by the same one. -/
theorem replace_injective {first second : FunctionId × Block}
    (firstDefined : first ∈ run.gathered.program.definitions)
    (secondDefined : second ∈ run.gathered.program.definitions)
    (same : run.replace first.1 = run.replace second.1) : first.1 = second.1 := by
  have known {definition : FunctionId × Block}
      (defined : definition ∈ run.gathered.program.definitions) :
      definition.1.index < run.gathered.program.tables.functions.size := by
    obtain ⟨entry, there, -⟩ := run.fits.2.definitions definition defined
    exact (Array.getElem?_eq_some_iff.mp there).1
  by_cases firstDependent : first.1 ∈ run.dependents
  · by_cases secondDependent : second.1 ∈ run.dependents
    · obtain ⟨_, -, -, -, firstFound, -⟩ := run.thread.made firstDependent
      obtain ⟨_, -, -, -, secondFound, -⟩ := run.thread.made secondDependent
      have sameCopy : run.thread.replace first.1 = run.thread.replace second.1 := same
      exact run.thread.coherent.distinct firstDependent secondDependent firstFound
        (sameCopy ▸ secondFound)
    · rw [run.replace_eq_self secondDependent] at same
      exact absurd same (run.replace_ne firstDependent secondDependent (known secondDefined))
  · rw [run.replace_eq_self firstDependent] at same
    by_cases secondDependent : second.1 ∈ run.dependents
    · exact absurd same.symm (run.replace_ne secondDependent firstDependent (known firstDefined))
    · rwa [run.replace_eq_self secondDependent] at same

/-- Every function is still defined once. -/
theorem result_once (run : CategoryRun shader category supplied result) :
    (result.program.definitions.map Prod.fst).Nodup := by
  have names : result.program.definitions.map Prod.fst =
      run.gathered.program.definitions.map (run.replace ∘ Prod.fst) := by
    have each := run.turns
    generalize run.gathered.program.definitions = before at each
    generalize result.program.definitions = after at each
    induction each with
    | nil => rfl
    | cons head _ inductionHypothesis => simp [head.fst, inductionHypothesis]
  rw [names]
  refine List.Nodup.map_on (fun first firstDefined second secondDefined same => ?_)
    run.once.of_map
  exact List.inj_on_of_nodup_map run.once firstDefined secondDefined
    (run.replace_injective firstDefined secondDefined same)

/-- The entry point of the result stands for the old one. -/
theorem result_enters : result.program.Enters (run.replace run.main) where
  defined := by
    obtain ⟨body, defined⟩ := run.enters.defined
    obtain ⟨⟨function, turned⟩, there, turns⟩ :=
      Outcome.forall₂_exists_right run.turns (run.gathered_defined defined)
    obtain rfl : function = run.replace run.main := turns.fst
    exact ⟨turned, there⟩
  isMain := by
    intro turned there
    obtain ⟨definition, defined, turns⟩ := Outcome.forall₂_exists_left run.turns there
    obtain ⟨entry, known, isMain⟩ := run.replace_isMain defined
    rw [turns.fst]
    refine ⟨entry, known, isMain.trans ⟨fun same => by rw [same], fun same => ?_⟩⟩
    obtain ⟨body, mainDefined⟩ := run.enters.defined
    exact run.replace_injective defined (run.gathered_defined mainDefined) same

end CategoryRun

end ShaderPipeline
