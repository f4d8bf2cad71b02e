import ShaderPipeline.Lowering
import ShaderPipeline.Proofs.Program
import ShaderPipeline.Proofs.Tree

/-!
# Pruning a program

Pruning leaves a program with the same functions. `Trims` relates the bodies: a
statement goes only if it does nothing and what it declares is mentioned nowhere,
and a declaration that stays is that of a marked variable. The tables differ in
the flags of the variables that are out of use.
-/

namespace ShaderPipeline

/-! ## Variables out of use -/

/-- The variable, taken out of use if it is gone. -/
def Variable.retire (entry : Variable) (gone : Bool) : Variable :=
  if gone then { entry with eliminated := true } else entry

namespace Variable

variable (entry : Variable) (gone : Bool)

@[simp] theorem retire_false : entry.retire false = entry := rfl

@[simp] theorem retire_type : (entry.retire gone).type = entry.type := by cases gone <;> rfl

@[simp] theorem retire_name : (entry.retire gone).name = entry.name := by cases gone <;> rfl

@[simp] theorem retire_initializer : (entry.retire gone).initializer = entry.initializer := by
  cases gone <;> rfl

@[simp] theorem retire_reference : (entry.retire gone).reference = entry.reference := by
  cases gone <;> rfl

@[simp] theorem retire_decorations : (entry.retire gone).decorations = entry.decorations := by
  cases gone <;> rfl

@[simp] theorem retire_builtIn : (entry.retire gone).builtIn = entry.builtIn := by
  cases gone <;> rfl

@[simp] theorem retire_precision : (entry.retire gone).precision = entry.precision := by
  cases gone <;> rfl

@[simp] theorem retire_isConst : (entry.retire gone).isConst = entry.isConst := by
  cases gone <;> rfl

@[simp] theorem retire_scope : (entry.retire gone).scope = entry.scope := by cases gone <;> rfl

@[simp] theorem retire_isInterface : (entry.retire gone).isInterface = entry.isInterface := by
  cases gone <;> rfl

@[simp] theorem retire_retire (also : Bool) :
    (entry.retire gone).retire also = entry.retire (gone || also) := by
  cases gone <;> cases also <;> rfl

end Variable

namespace Tables

variable {tables : Tables}

/-- The tables with certain variables out of use. -/
def retire (tables : Tables) (gone : VariableId → Bool) : Tables :=
  { tables with vars := tables.vars.mapIdx fun index entry => entry.retire (gone ⟨index⟩) }

@[simp] theorem retire_types (gone : VariableId → Bool) :
    (tables.retire gone).types = tables.types := rfl

@[simp] theorem find?_retire (tables : Tables) (gone : VariableId → Bool) (key : TypeKey) :
    (tables.retire gone).find? key = tables.find? key := rfl

@[simp] theorem retire_functions (gone : VariableId → Bool) :
    (tables.retire gone).functions = tables.functions := rfl

@[simp] theorem retire_textureEnvs (gone : VariableId → Bool) :
    (tables.retire gone).textureEnvs = tables.textureEnvs := rfl

@[simp] theorem retire_stage (gone : VariableId → Bool) :
    (tables.retire gone).stage = tables.stage := rfl

@[simp] theorem retire_vars_size (gone : VariableId → Bool) :
    (tables.retire gone).vars.size = tables.vars.size := by
  simp [retire]

@[simp] theorem getElem?_retire (gone : VariableId → Bool) (index : Nat) :
    (tables.retire gone).vars[index]? =
      tables.vars[index]?.map fun entry => entry.retire (gone ⟨index⟩) := by
  simp [retire]

/-- Variables may go out of use in two steps or in one. -/
theorem retire_retire (first second : VariableId → Bool) :
    (tables.retire first).retire second = tables.retire fun id => first id || second id := by
  simp only [retire, Tables.mk.injEq, heq_eq_eq, true_and, and_true]
  refine Array.ext_getElem? fun index => ?_
  cases known : tables.vars[index]? <;> simp [known]

/-- If no variable goes out of use, the tables stay. -/
theorem retire_false : (tables.retire fun _ => false) = tables := by
  obtain ⟨stage, types, shared, vars, functions, textureEnvs⟩ := tables
  simp only [retire, Variable.retire_false, Tables.mk.injEq, heq_eq_eq, true_and, and_true]
  exact Array.ext_getElem? fun index => by simp

/-- Eliminating a variable that is known puts it out of use. -/
theorem eliminate_eq {id : VariableId} (known : id.index < tables.vars.size) :
    tables.eliminate id = .ok (tables.retire (· == id)) := by
  simp only [eliminate, updateVariable, known, if_true, Except.ok.injEq, retire, Tables.mk.injEq,
    heq_eq_eq, true_and, and_true]
  refine Array.ext_getElem? fun index => ?_
  rw [Array.getElem?_modify]
  by_cases same : id.index = index
  · subst same
    cases there : tables.vars[id.index]? <;> simp [there, Variable.retire]
  · have other : ((⟨index⟩ : VariableId) == id) = false := by
      rw [beq_eq_false_iff_ne]
      rintro rfl
      exact same rfl
    cases there : tables.vars[index]? <;> simp [there, same, other]

/-- Known variables can all be taken out of use. -/
theorem eliminateAll_eq {ids : List VariableId} (known : ∀ id ∈ ids, id.index < tables.vars.size) :
    tables.eliminateAll ids = .ok (tables.retire ids.contains) := by
  induction ids generalizing tables with
  | nil =>
    rw [eliminateAll, Except.ok.injEq]
    exact retire_false.symm
  | cons id ids inductionHypothesis =>
    rw [List.forall_mem_cons] at known
    have rest := @inductionHypothesis (tables.retire (· == id)) (by simpa using known.2)
    rw [eliminateAll, eliminate_eq known.1, Outcome.ok_bind, rest, retire_retire]
    congr 2

end Tables

/-! ## Bodies -/

namespace Prune

/-- A statement that does nothing, given the variables that are referred to. -/
def Idle (refs : List VariableId) : Stmt → Prop
  | .declare id initial => id ∉ refs ∧ ∀ value ∈ initial, value.hasEffect = false
  | .eval value => value.hasEffect = false
  | _ => False

/-- A statement without nested blocks. What it declares is marked. -/
def Lasts (marks : List VariableId) : Stmt → Prop
  | .declare id _ => id ∈ marks
  | .ifThen _ _ | .ifElse _ _ _ | .loop _ _ | .block _ => False
  | _ => True

/-- The second block is the first one without statements that do nothing. -/
inductive Trims (refs marks : List VariableId) : Block → Block → Prop where
  | nil : Trims refs marks [] []
  | drop {stmt : Stmt} {rest after : Block} (idle : Idle refs stmt)
      (tail : Trims refs marks rest after) : Trims refs marks (stmt :: rest) after
  | keep {stmt : Stmt} {rest after : Block} (lasts : Lasts marks stmt)
      (tail : Trims refs marks rest after) : Trims refs marks (stmt :: rest) (stmt :: after)
  | ifThen (condition : Expr) {yes trimmed rest after : Block} (inner : Trims refs marks yes trimmed)
      (tail : Trims refs marks rest after) :
      Trims refs marks (.ifThen condition yes :: rest) (.ifThen condition trimmed :: after)
  | ifElse (condition : Expr) {yes no trimmedYes trimmedNo rest after : Block}
      (inYes : Trims refs marks yes trimmedYes) (inNo : Trims refs marks no trimmedNo)
      (tail : Trims refs marks rest after) :
      Trims refs marks (.ifElse condition yes no :: rest)
        (.ifElse condition trimmedYes trimmedNo :: after)
  | loop (condition : Expr) {body trimmed rest after : Block} (inner : Trims refs marks body trimmed)
      (tail : Trims refs marks rest after) :
      Trims refs marks (.loop condition body :: rest) (.loop condition trimmed :: after)
  | block {body trimmed rest after : Block} (inner : Trims refs marks body trimmed)
      (tail : Trims refs marks rest after) :
      Trims refs marks (.block body :: rest) (.block trimmed :: after)

variable {refs marks state : List VariableId}

/-- What pruning a statement does: the marks grow, and the statement is trimmed in front of
whatever follows. -/
def Does (refs state : List VariableId) (stmt : Stmt) (outcome : List Stmt × List VariableId) :
    Prop :=
  state ⊆ outcome.2 ∧ ∀ marks, outcome.2 ⊆ marks → ∀ {rest after : Block},
    Trims refs marks rest after → Trims refs marks (stmt :: rest) (outcome.1 ++ after)

/-- What pruning a block does. -/
def DoesAll (refs state : List VariableId) (stmts : List Stmt)
    (outcome : List Stmt × List VariableId) : Prop :=
  state ⊆ outcome.2 ∧ ∀ marks, outcome.2 ⊆ marks → Trims refs marks stmts outcome.1

/-- A block is pruned statement by statement. -/
theorem doesAll_of_each {stmts : List Stmt}
    (each : ∀ stmt ∈ stmts, ∀ state, refs ⊆ state →
      Does refs state stmt ((stmt.replaceM pruneStmt).run state)) (larger : refs ⊆ state) :
    DoesAll refs state stmts ((Stmt.replaceAllM pruneStmt stmts).run state) := by
  induction stmts generalizing state with
  | nil => exact ⟨List.Subset.refl _, fun _ _ => .nil⟩
  | cons stmt stmts inductionHypothesis =>
    rw [List.forall_mem_cons] at each
    obtain ⟨grows, does⟩ := each.1 state larger
    obtain ⟨growsOn, doesRest⟩ := inductionHypothesis each.2 (List.Subset.trans larger grows)
    refine ⟨List.Subset.trans grows growsOn, fun marks all => ?_⟩
    exact does marks (List.Subset.trans growsOn all) (doesRest marks all)

/-- A statement that always stays is trimmed to itself. -/
theorem does_keep {stmt : Stmt} (lasts : ∀ marks, Lasts marks stmt) :
    Does refs state stmt ([stmt], state) :=
  ⟨List.Subset.refl _, fun marks _ _ _ tail => .keep (lasts marks) tail⟩

/-- A declaration stays if its variable is marked or its initial value has an effect. -/
theorem pruneStmt_declare (id : VariableId) (initial : Option Expr) (state : List VariableId) :
    (pruneStmt (.declare id initial)).run state =
      if state.contains id || initial.any Expr.hasEffect then
        ([.declare id initial], state.insert id)
      else
        ([], state) := by
  change (if (state.contains id || initial.any Expr.hasEffect) = true then _ else _ :
    StateM (List VariableId) (List Stmt)).run state = _
  split <;> rfl

/-- Pruning a statement does what it should, given at least the marks of all references. -/
theorem does_stmt (stmt : Stmt) {state : List VariableId} (larger : refs ⊆ state) :
    Does refs state stmt ((stmt.replaceM pruneStmt).run state) := by
  induction stmt generalizing state with
  | declare id initial =>
    rw [Stmt.replaceM, pruneStmt_declare]
    split
    · exact ⟨fun _ member => List.mem_insert_of_mem member, fun marks all _ _ tail =>
        .keep (all List.mem_insert_self) tail⟩
    case isFalse idle =>
      simp only [Bool.or_eq_true, List.contains_iff_mem, not_or, Bool.not_eq_true] at idle
      refine ⟨List.Subset.refl _, fun marks all _ _ tail => .drop ⟨fun member => ?_, ?_⟩ tail⟩
      · exact idle.1 (larger member)
      · intro value isInitial
        obtain rfl : initial = some value := isInitial
        exact idle.2
  | eval value =>
    have run : ((Stmt.eval value).replaceM pruneStmt).run state =
        (if value.hasEffect then [.eval value] else [], state) := rfl
    rw [run]
    split
    · exact does_keep fun _ => trivial
    case isFalse idle =>
      exact ⟨List.Subset.refl _, fun marks all _ _ tail => .drop (by simpa [Idle] using idle) tail⟩
  | assign | ret | brk | cont | discard => exact does_keep fun _ => trivial
  | ifThen condition yes inYes =>
    obtain ⟨grows, does⟩ := doesAll_of_each (fun stmt member _ => inYes stmt member) larger
    exact ⟨grows, fun marks all _ _ tail => .ifThen condition (does marks all) tail⟩
  | ifElse condition yes no inYes inNo =>
    obtain ⟨grows, does⟩ := doesAll_of_each (fun stmt member _ => inYes stmt member) larger
    obtain ⟨growsOn, doesNo⟩ := doesAll_of_each (fun stmt member _ => inNo stmt member)
      (List.Subset.trans larger grows)
    exact ⟨List.Subset.trans grows growsOn, fun marks all _ _ tail =>
      .ifElse condition (does marks (List.Subset.trans growsOn all)) (doesNo marks all) tail⟩
  | loop condition body inBody =>
    obtain ⟨grows, does⟩ := doesAll_of_each (fun stmt member _ => inBody stmt member) larger
    exact ⟨grows, fun marks all _ _ tail => .loop condition (does marks all) tail⟩
  | block body inBody =>
    obtain ⟨grows, does⟩ := doesAll_of_each (fun stmt member _ => inBody stmt member) larger
    exact ⟨grows, fun marks all _ _ tail => .block (does marks all) tail⟩

/-- So does pruning a block. -/
theorem does_block (body : Block) (larger : refs ⊆ state) :
    DoesAll refs state body ((Block.replaceM body pruneStmt).run state) :=
  doesAll_of_each (fun stmt _ _ => does_stmt stmt) larger

/-- Trimming a block brings in no expressions. -/
theorem Trims.roots_subset {body trimmed : Block} (trims : Trims refs marks body trimmed) :
    trimmed.roots ⊆ body.roots := by
  induction trims with
  | nil => exact List.Subset.refl _
  | drop _ _ tail =>
    rw [Block.roots_cons]
    exact List.Subset.trans tail (List.subset_append_right _ _)
  | keep _ _ tail =>
    rw [Block.roots_cons, Block.roots_cons]
    exact List.append_subset.mpr ⟨List.subset_append_left _ _,
      List.subset_append_of_subset_right _ tail⟩
  | ifThen condition _ _ inner tail =>
    simp only [Block.roots_cons, Stmt.roots_ifThen]
    exact List.append_subset.mpr ⟨List.subset_append_of_subset_left _ (List.cons_subset_cons _ inner),
      List.subset_append_of_subset_right _ tail⟩
  | ifElse condition _ _ _ inYes inNo tail =>
    simp only [Block.roots_cons, Stmt.roots_ifElse]
    refine List.append_subset.mpr ⟨List.subset_append_of_subset_left _ (List.cons_subset_cons _ ?_),
      List.subset_append_of_subset_right _ tail⟩
    exact List.append_subset.mpr ⟨List.subset_append_of_subset_left _ inYes,
      List.subset_append_of_subset_right _ inNo⟩
  | loop condition _ _ inner tail =>
    simp only [Block.roots_cons, Stmt.roots_loop]
    exact List.append_subset.mpr ⟨List.subset_append_of_subset_left _ (List.cons_subset_cons _ inner),
      List.subset_append_of_subset_right _ tail⟩
  | block _ _ inner tail =>
    simp only [Block.roots_cons, Stmt.roots_block]
    exact List.append_subset.mpr ⟨List.subset_append_of_subset_left _ inner,
      List.subset_append_of_subset_right _ tail⟩

/-- What holds of every part of a block holds after trimming. -/
theorem Trims.every {rule : Expr → Prop} {body trimmed : Block}
    (trims : Trims refs marks body trimmed) (every : Block.Every rule body) :
    Block.Every rule trimmed :=
  fun root member => every root (trims.roots_subset member)

/-! ## Declarations -/

/-- What becomes of a declaration, if it stays. -/
inductive Trimmed (refs marks : List VariableId) : Global → Global → Prop where
  | struct (type : TypeId) : Trimmed refs marks (.struct type) (.struct type)
  | var (id : VariableId) : Trimmed refs marks (.var id) (.var id)
  | prototype (function : FunctionId) : Trimmed refs marks (.prototype function) (.prototype function)
  | definition (function : FunctionId) {body trimmed : Block} (trims : Trims refs marks body trimmed) :
      Trimmed refs marks (.definition function body) (.definition function trimmed)

/-- Prunes the bodies of all definitions in order, with marks that grow on the way. -/
def sweep (globals : List Global) (state : List VariableId) : List Global × List VariableId :=
  (Global.mapBodiesM (fun (_ : FunctionId) (body : Block) => Block.replaceM body pruneStmt)
    globals).run state

@[simp] theorem sweep_nil : sweep [] state = ([], state) := rfl

/-- Sweeping prunes the body of a definition before it goes on. -/
theorem sweep_definition (function : FunctionId) (body : Block) (rest : List Global) :
    sweep (.definition function body :: rest) state =
      (.definition function ((Block.replaceM body pruneStmt).run state).1 ::
        (sweep rest ((Block.replaceM body pruneStmt).run state).2).1,
        (sweep rest ((Block.replaceM body pruneStmt).run state).2).2) := rfl

/-- Sweeping leaves a declaration without a body. -/
theorem sweep_of_no_definition {global : Global} (other : global.definition? = none)
    (rest : List Global) :
    sweep (global :: rest) state = (global :: (sweep rest state).1, (sweep rest state).2) := by
  cases global with
  | definition => cases other
  | struct | var | prototype => rfl

/-- Sweeping trims every definition, with the marks that it ends with or any more. -/
theorem trimmed_globals (globals : List Global) (larger : refs ⊆ state) :
    state ⊆ (sweep globals state).2 ∧ ∀ marks, (sweep globals state).2 ⊆ marks →
      List.Forall₂ (Trimmed refs marks) globals (sweep globals state).1 := by
  induction globals generalizing state with
  | nil => exact ⟨List.Subset.refl _, fun _ _ => .nil⟩
  | cons global rest inductionHypothesis =>
    cases global with
    | struct type =>
      obtain ⟨grows, does⟩ := inductionHypothesis larger
      exact ⟨grows, fun marks all => .cons (.struct type) (does marks all)⟩
    | var id =>
      obtain ⟨grows, does⟩ := inductionHypothesis larger
      exact ⟨grows, fun marks all => .cons (.var id) (does marks all)⟩
    | prototype function =>
      obtain ⟨grows, does⟩ := inductionHypothesis larger
      exact ⟨grows, fun marks all => .cons (.prototype function) (does marks all)⟩
    | definition function body =>
      obtain ⟨grows, does⟩ := does_block body larger
      obtain ⟨growsOn, doesRest⟩ := inductionHypothesis (List.Subset.trans larger grows)
      exact ⟨List.Subset.trans grows growsOn, fun marks all =>
        .cons (.definition function (does marks (List.Subset.trans growsOn all))) (doesRest marks all)⟩

/-! ## Programs -/

/-- Everything that pruning looks up is known. -/
structure Known (program : Program) : Prop where
  vars : ∀ id, .var id ∈ program.globals → id.index < program.tables.vars.size
  functions : ∀ function ∈ program.declaredFunctions, ∃ entry,
    program.tables.functions[function.index]? = some entry ∧
      ∀ param ∈ entry.params, param.variableId.index < program.tables.vars.size
  mentioned : ∀ definition ∈ program.definitions, ∀ id ∈ Block.symbols definition.2,
    id.index < program.tables.vars.size
  locals : ∀ definition ∈ program.definitions, ∀ stmt ∈ Block.stmts definition.2, ∀ id,
    declared? stmt = some id → id.index < program.tables.vars.size

/-- The list holds the variables that the definitions of a program mention or take. -/
structure Refers (program : Program) (refs : List VariableId) : Prop where
  mentioned : ∀ definition ∈ program.definitions, Block.symbols definition.2 ⊆ refs
  params : ∀ definition ∈ program.definitions, ∀ {function : Function},
    program.tables.functions[definition.1.index]? = some function →
      ∀ param ∈ function.params, param.variableId ∈ refs

variable {program result : Program}

/-- Flagging takes the variables out of use that are not marked. -/
theorem flag_eq (marks : List VariableId) (tables : Tables) :
    flag marks tables = tables.retire fun id => !marks.contains id := by
  simp only [flag, Tables.retire, Tables.mk.injEq, heq_eq_eq, true_and, and_true]
  congr 1
  funext index entry
  cases marks.contains ⟨index⟩ <;> rfl

/-- What a declaration keeps in use is found and known. -/
theorem anchored_ok (known : Known program) {global : Global} (member : global ∈ program.globals) :
    ∃ ids, anchored program.tables global = .ok ids ∧
      ∀ id ∈ ids, id.index < program.tables.vars.size := by
  have ofFunction {function : FunctionId} (isFunction : global.function? = some function) :
      ∃ ids, (do return (← program.tables.functionAt function).params.map Param.variableId :
          Result (List VariableId)) = .ok ids ∧
        ∀ id ∈ ids, id.index < program.tables.vars.size := by
    obtain ⟨entry, there, params⟩ :=
      known.functions function (List.mem_filterMap.mpr ⟨global, member, isFunction⟩)
    have found : program.tables.functionAt function = .ok entry := by simpa using there
    exact ⟨_, by rw [found]; rfl, List.forall_mem_map.mpr params⟩
  cases global with
  | struct type => exact ⟨[], rfl, by simp⟩
  | var id =>
    have inside := known.vars id member
    have found : program.tables.variableAt id = .ok program.tables.vars[id.index] := by simp
    refine ⟨_, by rw [anchored, found]; rfl, fun other chosen => ?_⟩
    split at chosen
    · obtain rfl := List.mem_singleton.mp chosen
      exact inside
    · simp at chosen
  | prototype function => exact ofFunction rfl
  | definition function body => exact ofFunction rfl

/-- Where everything is known, the referenced variables are found. -/
theorem referenced_ok (known : Known program) :
    ∃ refs, referenced program = .ok refs ∧ Refers program refs := by
  obtain ⟨anchors, anchorsOk⟩ := Outcome.exists_mapM_ok fun global member =>
    (anchored_ok known member).imp fun _ => And.left
  have each := Outcome.mapM_eq_ok_iff.mp anchorsOk
  have inside : ∀ id ∈ anchors.flatten ++ mentioned program ++ declaredLocals program,
      id.index < program.tables.vars.size := by
    simp only [List.mem_append, or_imp, forall_and]
    refine ⟨⟨fun id member => ?_, fun id member => ?_⟩, fun id member => ?_⟩
    · obtain ⟨ids, own, inIds⟩ := List.mem_flatten.mp member
      obtain ⟨global, there, same⟩ := Outcome.forall₂_exists_left each own
      obtain ⟨others, otherOk, allKnown⟩ := anchored_ok known there
      obtain rfl : others = ids := Except.ok.inj (otherOk.symm.trans same)
      exact allKnown id inIds
    · obtain ⟨definition, defined, own⟩ := List.mem_flatMap.mp member
      exact known.mentioned definition defined id own
    · obtain ⟨definition, defined, own⟩ := List.mem_flatMap.mp member
      obtain ⟨stmt, there, declares⟩ := List.mem_filterMap.mp own
      exact known.locals definition defined stmt there id declares
  refine ⟨anchors.flatten ++ mentioned program, ?_, fun definition defined id own => ?_,
    fun definition defined function there param own => ?_⟩
  · have all : (anchors.flatten ++ mentioned program ++ declaredLocals program).all
        (fun id => decide (id.index < program.tables.vars.size)) = true := by
      simpa only [List.all_eq_true, decide_eq_true_eq] using inside
    simp only [referenced, anchorsOk, Outcome.ok_bind, all, if_true, Outcome.pure_eq_ok]
  · exact List.mem_append_right _ (List.mem_flatMap.mpr ⟨definition, defined, own⟩)
  · obtain ⟨ids, own', same⟩ := Outcome.forall₂_exists_right each
      (Program.mem_definitions.mp defined)
    have found : program.tables.functionAt definition.1 = .ok function := by simpa using there
    obtain rfl : _ = ids := Except.ok.inj ((by rw [anchored, found]; rfl :
      _ = Except.ok _).symm.trans same)
    exact List.mem_append_left _ (List.mem_flatten.mpr ⟨_, own', List.mem_map_of_mem own⟩)

end Prune

/-- The second program is the first one without what it does not use. -/
structure Program.Pruned (program result : Program) (refs marks : List VariableId) : Prop where
  refers : Prune.Refers program refs
  marked : refs ⊆ marks
  tables : result.tables = program.tables.retire fun id => !marks.contains id
  globals : ∃ trimmed, List.Forall₂ (Prune.Trimmed refs marks) program.globals trimmed ∧
    result.globals = trimmed.filter (Prune.keeps marks)

namespace Program.Pruned

variable {program result : Program} {refs marks : List VariableId}

/-- The functions are the same, with trimmed bodies. -/
theorem definitions (pruned : program.Pruned result refs marks) :
    List.Forall₂ (fun before after => after.1 = before.1 ∧
      Prune.Trims refs marks before.2 after.2) program.definitions result.definitions := by
  obtain ⟨trimmed, each, globals⟩ := pruned.globals
  have kept : result.definitions = trimmed.filterMap Global.definition? := by
    rw [Program.definitions, globals, List.filterMap_filter]
    congr 1
    funext global
    cases global <;> simp [Prune.keeps, Global.definition?]
  rw [kept]
  refine List.rel_filterMap (fun {before after} trimmed => ?_) each
  cases trimmed with
  | struct | var | prototype => exact .none
  | definition function trims => exact .some ⟨rfl, trims⟩

/-- A pruned program declares the same functions. -/
theorem declaredFunctions (pruned : program.Pruned result refs marks) :
    result.declaredFunctions = program.declaredFunctions := by
  obtain ⟨trimmed, each, globals⟩ := pruned.globals
  have kept : result.declaredFunctions = trimmed.filterMap Global.function? := by
    rw [Program.declaredFunctions, globals, List.filterMap_filter]
    congr 1
    funext global
    cases global <;> simp [Prune.keeps, Global.function?]
  rw [kept, Program.declaredFunctions]
  generalize program.globals = before at each
  clear kept globals
  induction each with
  | nil => rfl
  | cons head _ inductionHypothesis =>
    cases head <;> simp [List.filterMap_cons, Global.function?, inductionHypothesis]

/-- The marked variables stay declared. -/
theorem globalVariables (pruned : program.Pruned result refs marks) :
    result.globalVariables = program.globalVariables.filter marks.contains := by
  obtain ⟨trimmed, each, globals⟩ := pruned.globals
  rw [Program.globalVariables, Program.globalVariables, globals]
  generalize program.globals = before at each
  clear globals
  induction each with
  | nil => rfl
  | cons head _ inductionHypothesis =>
    cases head with
    | struct | prototype | definition =>
      simpa [List.filter_cons, Prune.keeps, List.filterMap_cons, Global.declared?] using
        inductionHypothesis
    | var id =>
      by_cases marked : id ∈ marks
      · simpa [List.filter_cons, Prune.keeps, List.filterMap_cons, Global.declared?, marked] using
          inductionHypothesis
      · simpa [List.filter_cons, Prune.keeps, List.filterMap_cons, Global.declared?, marked] using
          inductionHypothesis

/-- A pruned program keeps the global variables that are marked. -/
theorem mem_globalVariables (pruned : program.Pruned result refs marks) {id : VariableId} :
    id ∈ result.globalVariables ↔ id ∈ program.globalVariables ∧ id ∈ marks := by
  rw [pruned.globalVariables, List.mem_filter, List.contains_iff_mem]

/-- A pruned program defines the same functions, in the same order. -/
theorem definition_names (pruned : program.Pruned result refs marks) :
    result.definitions.map Prod.fst = program.definitions.map Prod.fst := by
  have each := pruned.definitions
  generalize program.definitions = before at each
  generalize result.definitions = after at each
  induction each with
  | nil => rfl
  | cons head _ inductionHypothesis => simp [head.1, inductionHypothesis]

/-- The only declarations that are new are the trimmed definitions. -/
theorem mem_globals (pruned : program.Pruned result refs marks) {global : Global}
    (member : global ∈ result.globals) :
    ∃ before ∈ program.globals, Prune.Trimmed refs marks before global := by
  obtain ⟨trimmed, each, globals⟩ := pruned.globals
  rw [globals] at member
  exact Outcome.forall₂_exists_left each (List.mem_filter.mp member).1

end Program.Pruned

/-- Pruning sweeps through the definitions and then drops and flags what is not marked. -/
theorem Program.prune_eq {program : Program} {refs : List VariableId}
    (found : Prune.referenced program = .ok refs) :
    program.prune = .ok ⟨Prune.flag (Prune.sweep program.globals refs).2 program.tables,
      (Prune.sweep program.globals refs).1.filter
        (Prune.keeps (Prune.sweep program.globals refs).2)⟩ := by
  rw [Program.prune, found, Outcome.ok_bind]
  rfl

/-- Sweeping with the variables that are referred to, and then dropping those without a mark, prunes
the program. -/
theorem Prune.Refers.pruned {program : Program} {refs : List VariableId}
    (refers : Prune.Refers program refs) :
    program.Pruned ⟨Prune.flag (Prune.sweep program.globals refs).2 program.tables,
      (Prune.sweep program.globals refs).1.filter
        (Prune.keeps (Prune.sweep program.globals refs).2)⟩ refs
      (Prune.sweep program.globals refs).2 := by
  obtain ⟨marked, trimmed⟩ :=
    @Prune.trimmed_globals refs refs program.globals (List.Subset.refl _)
  exact ⟨refers, marked, Prune.flag_eq _ _, _, trimmed _ (List.Subset.refl _), rfl⟩

/-- Where everything is known, pruning succeeds. -/
theorem Program.prune_ok {program : Program} (known : Prune.Known program) :
    ∃ result refs marks, program.prune = .ok result ∧ program.Pruned result refs marks := by
  obtain ⟨refs, found, refers⟩ := Prune.referenced_ok known
  exact ⟨_, refs, _, Program.prune_eq found, refers.pruned⟩

end ShaderPipeline
