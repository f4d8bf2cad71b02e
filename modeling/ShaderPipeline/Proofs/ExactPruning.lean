import Mathlib.Data.List.Pairwise
import ShaderPipeline.Proofs.CallChains
import ShaderPipeline.Proofs.Validity.Pruned

/-!
# What pruning removes

Pruning marks variables while it removes statements, so what happens to a
declaration may depend on what was done before it. Here the outcome is told
without any order: the variables that a program needs are given by the grammar,
the variables left are those, and, if no variable is declared twice, the
statements that go are exactly the declarations of variables that are not needed
and the expressions without calls.
-/

namespace ShaderPipeline

/-! ## What is needed -/

/-- A call stands somewhere in the expression. -/
def Expr.HasCall (expr : Expr) : Prop := ∃ callee args, (Expr.call callee args).Within expr

/-- An expression has an effect exactly if a call stands in it. -/
theorem Expr.hasEffect_iff_hasCall {expr : Expr} : expr.hasEffect = true ↔ expr.HasCall := by
  simp only [HasCall, within_iff_mem_nodes]
  induction expr with
  | const | var => simp [hasEffect, nodes]
  | field base position inBase => simp [hasEffect, nodes, inBase]
  | index base position inBase inPosition =>
    simp [hasEffect, nodes, inBase, inPosition, exists_or]
  | unary op operand inOperand => simp [hasEffect, nodes, inOperand]
  | binary op left right inLeft inRight => simp [hasEffect, nodes, inLeft, inRight, exists_or]
  | construct type args inArgs =>
    simp only [hasEffect, hasEffects_eq_any, List.any_eq_true, nodes, List.mem_cons, reduceCtorEq,
      false_or, mem_nodesOfAll]
    constructor
    · rintro ⟨arg, own, effect⟩
      obtain ⟨callee, others, inside⟩ := (inArgs arg own).mp effect
      exact ⟨callee, others, arg, own, inside⟩
    · rintro ⟨callee, others, arg, own, inside⟩
      exact ⟨arg, own, (inArgs arg own).mpr ⟨callee, others, inside⟩⟩
  | call callee args => simp [hasEffect, nodes, exists_or]
  | sample sampler coordinates inSampler inCoordinates =>
    simp [hasEffect, nodes, inSampler, inCoordinates, exists_or]
  | addressOf operand inOperand => simp [hasEffect, nodes, inOperand]

instance (expr : Expr) : Decidable expr.HasCall := decidable_of_iff _ Expr.hasEffect_iff_hasCall

namespace Program

/-- A program needs a variable: a body mentions it, a function that is declared takes it, it is a
global variable of the interface, or it is declared with a call in its initial value. -/
inductive Needs (program : Program) (id : VariableId) : Prop where
  | mentioned {function : FunctionId} {body : Block}
      (defined : .definition function body ∈ program.globals) (holds : body.Holds (.var id)) :
      Needs program id
  | taken {function : FunctionId} {entry : Function} {param : Param}
      (declared : function ∈ program.declaredFunctions)
      (known : program.tables.functions[function.index]? = some entry)
      (own : param ∈ entry.params) (same : param.variableId = id) : Needs program id
  | interface {entry : Variable} (declared : .var id ∈ program.globals)
      (known : program.tables.vars[id.index]? = some entry) (isInterface : entry.isInterface = true) :
      Needs program id
  | started {function : FunctionId} {body : Block} {initial : Expr}
      (defined : .definition function body ∈ program.globals)
      (declares : .declare id (some initial) ∈ body.stmts) (hasCall : initial.HasCall) :
      Needs program id

end Program

namespace Prune

variable {program : Program} {refs state : List VariableId} {id : VariableId}

/-- The variable that a statement declares with a call in its initial value. -/
def started? : Stmt → Option VariableId
  | .declare id (some initial) => if initial.hasEffect then some id else none
  | _ => none

/-- The started variables are those that some statement declares with a call in the initial
value. -/
theorem mem_started_iff {stmts : List Stmt} : id ∈ stmts.filterMap started? ↔
    ∃ initial : Expr, .declare id (some initial) ∈ stmts ∧ initial.HasCall := by
  rw [List.mem_filterMap]
  constructor
  · rintro ⟨stmt, member, starts⟩
    cases stmt with
    | declare other initial =>
      cases initial with
      | none => simp [started?] at starts
      | some initial =>
        simp only [started?, Option.ite_none_right_eq_some, Option.some.injEq] at starts
        obtain ⟨effect, rfl⟩ := starts
        exact ⟨initial, member, Expr.hasEffect_iff_hasCall.mp effect⟩
    | _ => simp [started?] at starts
  · rintro ⟨initial, member, hasCall⟩
    exact ⟨_, member, by simp [started?, Expr.hasEffect_iff_hasCall.mpr hasCall]⟩

/-- The variables that a global declaration keeps alive by itself, as far as they are known. -/
def anchors (tables : Tables) : Global → List VariableId
  | .struct _ => []
  | .var id => if tables.vars[id.index]?.any Variable.isInterface then [id] else []
  | .prototype function | .definition function _ =>
    (tables.functions[function.index]?.toList.flatMap Function.params).map Param.variableId

/-- What a declaration keeps alive is what it anchors, where all of it is known. -/
theorem anchored_eq_anchors {tables : Tables} {global : Global} {ids : List VariableId}
    (found : anchored tables global = .ok ids) : anchors tables global = ids := by
  cases global with
  | struct type => exact Except.ok.inj found
  | var id =>
    simp only [anchored, Outcome.bind_eq_ok_iff, Tables.variableAt_eq_ok_iff, Outcome.pure_eq_ok,
      Except.ok.injEq] at found
    obtain ⟨entry, known, rfl⟩ := found
    simp [anchors, known]
  | prototype function | definition function =>
    simp only [anchored, Outcome.bind_eq_ok_iff, Tables.functionAt_eq_ok_iff, Outcome.pure_eq_ok,
      Except.ok.injEq] at found
    obtain ⟨entry, known, rfl⟩ := found
    simp [anchors, known]

/-- The variables that are referred to before anything is removed. -/
theorem referenced_eq (found : referenced program = .ok refs) :
    refs = program.globals.flatMap (anchors program.tables) ++ mentioned program := by
  simp only [referenced, Outcome.bind_eq_ok_iff] at found
  obtain ⟨anchored, anchoredOk, found⟩ := found
  have same : anchored = program.globals.map (anchors program.tables) := by
    have each := Outcome.mapM_eq_ok_iff.mp anchoredOk
    generalize program.globals = globals at each
    clear anchoredOk found
    induction each with
    | nil => rfl
    | cons head _ inductionHypothesis =>
      rw [List.map_cons, anchored_eq_anchors head, inductionHypothesis]
  split at found
  · rw [← Except.ok.inj found, same, List.flatMap_def]
  · simp at found

end Prune

namespace Program

variable {program : Program} {id : VariableId}

/-- The variables that a program needs. -/
def needed (program : Program) : List VariableId :=
  program.globals.flatMap (Prune.anchors program.tables) ++ Prune.mentioned program ++
    program.definitions.flatMap fun definition =>
      (Block.stmts definition.2).filterMap Prune.started?

/-- The list of needed variables holds what the program needs. -/
theorem mem_needed_iff : id ∈ program.needed ↔ program.Needs id := by
  simp only [needed, List.mem_append, List.mem_flatMap, Prune.mentioned, Prod.exists,
    mem_definitions, Prune.mem_started_iff, ← Block.holds_var_iff]
  constructor
  · rintro ((⟨global, declared, anchors⟩ | ⟨function, body, defined, holds⟩) |
      ⟨function, body, defined, initial, declares, hasCall⟩)
    · cases global with
      | struct type => simp [Prune.anchors] at anchors
      | var other =>
        simp only [Prune.anchors, List.mem_ite_nil_right, List.mem_singleton,
          Option.any_eq_true] at anchors
        obtain ⟨⟨entry, known, isInterface⟩, rfl⟩ := anchors
        exact .interface declared known isInterface
      | prototype function | definition function =>
        simp only [Prune.anchors, List.mem_map, List.mem_flatMap, Option.mem_toList] at anchors
        obtain ⟨param, ⟨entry, known, own⟩, same⟩ := anchors
        exact .taken (List.mem_filterMap.mpr ⟨_, declared, rfl⟩) known own same
    · exact .mentioned defined holds
    · exact .started defined declares hasCall
  · intro needs
    cases needs with
    | mentioned defined holds => exact .inl (.inr ⟨_, _, defined, holds⟩)
    | @taken function entry param declared known own same =>
      obtain ⟨global, member, isFunction⟩ := List.mem_filterMap.mp declared
      refine .inl (.inl ⟨global, member, ?_⟩)
      cases global with
      | struct | var => simp [Global.function?] at isFunction
      | prototype | definition =>
        obtain rfl := Option.some.inj isFunction
        simp only [Prune.anchors, List.mem_map, List.mem_flatMap, Option.mem_toList]
        exact ⟨param, ⟨entry, known, own⟩, same⟩
    | interface declared known isInterface =>
      exact .inl (.inl ⟨_, declared, by simp [Prune.anchors, known, isInterface]⟩)
    | started defined declares hasCall => exact .inr ⟨_, _, defined, _, declares, hasCall⟩

instance (program : Program) (id : VariableId) : Decidable (program.Needs id) :=
  decidable_of_iff _ mem_needed_iff

end Program

/-! ## Taking statements out -/

namespace Stmt

mutual

/-- What is left of a statement if some statements are taken out of the blocks in it. -/
def without (drops : Stmt → Bool) : Stmt → Stmt
  | ifThen condition yes => ifThen condition (withoutAll drops yes)
  | ifElse condition yes no => ifElse condition (withoutAll drops yes) (withoutAll drops no)
  | loop condition body => loop condition (withoutAll drops body)
  | block body => block (withoutAll drops body)
  | declare id initial => declare id initial
  | eval value => eval value
  | assign target value => assign target value
  | ret value => ret value
  | brk => brk
  | cont => cont
  | discard => discard
termination_by structural stmt => stmt

/-- What is left of several statements if some of them are taken out, at any depth. -/
def withoutAll (drops : Stmt → Bool) : List Stmt → List Stmt
  | [] => []
  | stmt :: stmts =>
    if drops stmt then withoutAll drops stmts else stmt.without drops :: withoutAll drops stmts
termination_by structural stmts => stmts

end

end Stmt

/-- A block without certain statements, at any depth. -/
def Block.without (drops : Stmt → Bool) (block : Block) : Block := Stmt.withoutAll drops block

/-- A declaration with a changed body, if it has one. -/
def Global.mapBody (change : Block → Block) : Global → Global
  | .definition function body => .definition function (change body)
  | global => global

namespace Prune

variable {program : Program} {refs state : List VariableId} {needs : VariableId → Bool}

/-- The statements that do nothing, given the variables that are needed. -/
def dispensable (needs : VariableId → Bool) : Stmt → Bool
  | .declare id _ => !needs id
  | .eval value => !value.hasEffect
  | _ => false

/-! ## The marks -/

section Marks

variable {id : VariableId}

/-- Pruning statements marks the variables that they start, if pruning each of them does. -/
theorem mem_marks_of_each {stmts : List Stmt}
    (each : ∀ stmt ∈ stmts, ∀ state, id ∈ ((stmt.replaceM pruneStmt).run state).2 ↔
      id ∈ state ∨ id ∈ stmt.nodes.filterMap started?) (state : List VariableId) :
    id ∈ ((Stmt.replaceAllM pruneStmt stmts).run state).2 ↔
      id ∈ state ∨ id ∈ (Stmt.nodesOfAll stmts).filterMap started? := by
  induction stmts generalizing state with
  | nil => exact (or_iff_left List.not_mem_nil).symm
  | cons stmt stmts inductionHypothesis =>
    rw [List.forall_mem_cons] at each
    have later := inductionHypothesis each.2 ((stmt.replaceM pruneStmt).run state).2
    rw [each.1 state, or_assoc, ← List.mem_append, ← List.filterMap_append] at later
    exact later

/-- What is marked after a statement: what was marked, and what it declares with a call. -/
theorem mem_marks_stmt (stmt : Stmt) (state : List VariableId) :
    id ∈ ((stmt.replaceM pruneStmt).run state).2 ↔
      id ∈ state ∨ id ∈ stmt.nodes.filterMap started? := by
  induction stmt generalizing state with
  | declare other initial =>
    rw [Stmt.replaceM, pruneStmt_declare]
    cases initial with
    | none =>
      by_cases marked : other ∈ state
      · simp [marked, Stmt.nodes, started?]
      · simp [marked, Stmt.nodes, started?]
    | some initial =>
      cases effect : initial.hasEffect with
      | false =>
        by_cases marked : other ∈ state
        · simp [marked, effect, Stmt.nodes, started?]
        · simp [marked, effect, Stmt.nodes, started?]
      | true => simp [effect, Stmt.nodes, started?, List.mem_insert_iff, or_comm]
  | eval | assign | ret | brk | cont | discard => exact (or_iff_left List.not_mem_nil).symm
  | ifThen condition yes inYes => exact mem_marks_of_each inYes state
  | ifElse condition yes no inYes inNo =>
    have afterYes := mem_marks_of_each inYes state
    have afterNo := mem_marks_of_each inNo ((Stmt.replaceAllM pruneStmt yes).run state).2
    rw [afterYes, or_assoc, ← List.mem_append, ← List.filterMap_append] at afterNo
    exact afterNo
  | loop condition body inBody => exact mem_marks_of_each inBody state
  | block body inBody => exact mem_marks_of_each inBody state

/-- Pruning a block marks the variables that are started in it. -/
theorem mem_marks_block (body : Block) (state : List VariableId) :
    id ∈ ((Block.replaceM body pruneStmt).run state).2 ↔
      id ∈ state ∨ id ∈ body.stmts.filterMap started? :=
  mem_marks_of_each (fun stmt _ => mem_marks_stmt stmt) state

/-- What is marked in the end: what was marked, and what the bodies declare with a call. -/
theorem mem_marks_sweep (globals : List Global) (state : List VariableId) :
    id ∈ (sweep globals state).2 ↔ id ∈ state ∨ ∃ function body,
      .definition function body ∈ globals ∧ id ∈ (Block.stmts body).filterMap started? := by
  induction globals generalizing state with
  | nil => simp
  | cons global rest inductionHypothesis =>
    cases global with
    | definition function body =>
      rw [sweep_definition, inductionHypothesis, mem_marks_block]
      simp only [List.mem_cons, Global.definition.injEq, or_and_right, exists_or, or_assoc,
        exists_and_left, exists_eq_left, and_assoc]
    | struct | var | prototype =>
      rw [sweep_of_no_definition rfl, inductionHypothesis]
      simp

end Marks

/-! ## The statements that are left -/

/-- The declarations among some statements are settled: their variables are needed exactly if they
are referred to or if the declaration starts them with a call. -/
def Settled (refs : List VariableId) (needs : VariableId → Bool) (stmts : List Stmt) : Prop :=
  ∀ id initial, .declare id initial ∈ stmts →
    (needs id = true ↔ id ∈ refs ∨ initial.any Expr.hasEffect = true)

/-- The marks lie between what is referred to and what is needed. -/
structure Between (refs : List VariableId) (needs : VariableId → Bool) (state : List VariableId) :
    Prop where
  lower : refs ⊆ state
  upper : ∀ id ∈ state, needs id = true

/-- Settled declarations only mark what is needed. -/
theorem Between.mark {stmts : List Stmt} {next : List VariableId} (between : Between refs needs state)
    (settled : Settled refs needs stmts)
    (marks : ∀ id, id ∈ next ↔ id ∈ state ∨ id ∈ stmts.filterMap started?) :
    Between refs needs next where
  lower id member := (marks id).mpr (.inl (between.lower member))
  upper id member := by
    rcases (marks id).mp member with before | starts
    · exact between.upper id before
    · obtain ⟨initial, declares, hasCall⟩ := mem_started_iff.mp starts
      exact (settled id (some initial) declares).mpr
        (.inr (Expr.hasEffect_iff_hasCall.mpr hasCall))

/-- A block loses its first statement or keeps what is left of it. -/
theorem withoutAll_cons (drops : Stmt → Bool) (stmt : Stmt) (stmts : List Stmt) :
    Stmt.withoutAll drops (stmt :: stmts) =
      Stmt.withoutAll drops [stmt] ++ Stmt.withoutAll drops stmts := by
  simp only [Stmt.withoutAll]
  split <;> rfl

/-- Pruning statements takes out what is dispensable, if pruning each of them does. -/
theorem left_of_each {stmts : List Stmt}
    (each : ∀ stmt ∈ stmts, ∀ state, Between refs needs state → Settled refs needs stmt.nodes →
      ((stmt.replaceM pruneStmt).run state).1 = Stmt.withoutAll (dispensable needs) [stmt])
    (between : Between refs needs state) (settled : Settled refs needs (Stmt.nodesOfAll stmts)) :
    ((Stmt.replaceAllM pruneStmt stmts).run state).1 =
      Stmt.withoutAll (dispensable needs) stmts := by
  induction stmts generalizing state with
  | nil => rfl
  | cons stmt stmts inductionHypothesis =>
    rw [List.forall_mem_cons] at each
    have here : Settled refs needs stmt.nodes := fun id initial declares =>
      settled id initial (List.mem_append_left _ declares)
    have rest : Settled refs needs (Stmt.nodesOfAll stmts) := fun id initial declares =>
      settled id initial (List.mem_append_right _ declares)
    have next := between.mark here fun id => mem_marks_stmt stmt state
    rw [withoutAll_cons, ← each.1 state between here, ← inductionHypothesis each.2 next rest]
    rfl

/-- A statement that is pruned loses exactly what is dispensable. -/
theorem left_stmt (stmt : Stmt) {state : List VariableId} (between : Between refs needs state)
    (settled : Settled refs needs stmt.nodes) :
    ((stmt.replaceM pruneStmt).run state).1 = Stmt.withoutAll (dispensable needs) [stmt] := by
  induction stmt generalizing state with
  | declare id initial =>
    have isNeeded := settled id initial (List.mem_singleton.mpr rfl)
    have stays : (state.contains id || initial.any Expr.hasEffect) = needs id := by
      rw [Bool.eq_iff_iff, Bool.or_eq_true, List.contains_iff_mem]
      constructor
      · rintro (marked | effect)
        · exact between.upper id marked
        · exact isNeeded.mpr (.inr effect)
      · intro needed
        exact (isNeeded.mp needed).imp_left fun referred => between.lower referred
    rw [Stmt.replaceM, pruneStmt_declare, stays]
    cases needed : needs id <;> simp [Stmt.withoutAll, Stmt.without, dispensable, needed]
  | eval value =>
    have run : (((Stmt.eval value).replaceM pruneStmt).run state).1 =
        if value.hasEffect then [.eval value] else [] := rfl
    rw [run]
    cases effect : value.hasEffect <;> simp [Stmt.withoutAll, Stmt.without, dispensable, effect]
  | assign | ret | brk | cont | discard => rfl
  | ifThen condition yes inYes =>
    have left := left_of_each (fun stmt member _ => inYes stmt member) between
      fun id initial declares => settled id initial (List.mem_cons_of_mem _ declares)
    exact congrArg (fun yes => [Stmt.ifThen condition yes]) left
  | ifElse condition yes no inYes inNo =>
    have settledYes : Settled refs needs (Stmt.nodesOfAll yes) := fun id initial declares =>
      settled id initial (List.mem_cons_of_mem _ (List.mem_append_left _ declares))
    have settledNo : Settled refs needs (Stmt.nodesOfAll no) := fun id initial declares =>
      settled id initial (List.mem_cons_of_mem _ (List.mem_append_right _ declares))
    have leftYes := left_of_each (fun stmt member _ => inYes stmt member) between settledYes
    have next := between.mark settledYes fun id => mem_marks_block yes state
    have leftNo := left_of_each (fun stmt member _ => inNo stmt member) next settledNo
    exact congrArg₂ (fun yes no => [Stmt.ifElse condition yes no]) leftYes leftNo
  | loop condition body inBody =>
    have left := left_of_each (fun stmt member _ => inBody stmt member) between
      fun id initial declares => settled id initial (List.mem_cons_of_mem _ declares)
    exact congrArg (fun body => [Stmt.loop condition body]) left
  | block body inBody =>
    have left := left_of_each (fun stmt member _ => inBody stmt member) between
      fun id initial declares => settled id initial (List.mem_cons_of_mem _ declares)
    exact congrArg (fun body => [Stmt.block body]) left

/-- A sweep takes exactly what is dispensable out of all bodies. -/
theorem left_sweep {globals : List Global} (between : Between refs needs state)
    (settled : ∀ function body, .definition function body ∈ globals →
      Settled refs needs (Block.stmts body)) :
    (sweep globals state).1 = globals.map (Global.mapBody (Block.without (dispensable needs))) := by
  induction globals generalizing state with
  | nil => rfl
  | cons global rest inductionHypothesis =>
    have later := fun function body member =>
      settled function body (List.mem_cons_of_mem _ member)
    cases global with
    | definition function body =>
      have here := settled function body List.mem_cons_self
      have next := between.mark here fun id => mem_marks_block body state
      have left : ((Block.replaceM body pruneStmt).run state).1 =
          Block.without (dispensable needs) body :=
        left_of_each (fun stmt _ _ => left_stmt stmt) between here
      rw [sweep_definition, inductionHypothesis next later, left]
      rfl
    | struct | var | prototype =>
      rw [sweep_of_no_definition rfl, inductionHypothesis between later]
      rfl

end Prune

namespace Program

variable {program : Program} {refs : List VariableId} {id : VariableId}

/-- In the end, exactly what is needed is marked. -/
theorem mem_marks_iff_needs (found : Prune.referenced program = .ok refs) :
    id ∈ (Prune.sweep program.globals refs).2 ↔ program.Needs id := by
  rw [Prune.mem_marks_sweep, Prune.referenced_eq found, ← mem_needed_iff]
  simp only [needed, List.mem_append, List.mem_flatMap (l := program.definitions), Prod.exists,
    mem_definitions]

/-- If no variable is declared twice, two declarations of one variable are the same. -/
theorem declaration_unique (once : (Prune.declaredLocals program).Nodup)
    {definition other : FunctionId × Block} (defined : definition ∈ program.definitions)
    (otherDefined : other ∈ program.definitions) {initial start : Option Expr}
    (declares : .declare id initial ∈ definition.2.stmts)
    (alsoDeclares : .declare id start ∈ other.2.stmts) : initial = start := by
  have listed : Prune.declaredLocals program =
      (program.definitions.flatMap fun entry => Block.stmts entry.2).filterMap Prune.declared? := by
    rw [List.filterMap_flatMap]
    rfl
  have symmetric : Std.Symm fun first second : Stmt => ∀ one, Prune.declared? first = some one →
      ∀ two, Prune.declared? second = some two → one ≠ two :=
    ⟨fun _ _ apart one isOne two isTwo => (apart two isTwo one isOne).symm⟩
  rw [listed, List.Nodup, List.pairwise_filterMap] at once
  by_contra different
  exact once.forall (List.mem_flatMap.mpr ⟨definition, defined, declares⟩)
    (List.mem_flatMap.mpr ⟨other, otherDefined, alsoDeclares⟩) (by simpa using different)
    id rfl id rfl rfl

/-- If no variable is declared twice, all declarations are settled. -/
theorem settled_of_once (found : Prune.referenced program = .ok refs)
    (once : (Prune.declaredLocals program).Nodup) {function : FunctionId} {body : Block}
    (defined : .definition function body ∈ program.globals) :
    Prune.Settled refs (fun id => decide (program.Needs id)) (Block.stmts body) := by
  intro id initial declares
  rw [decide_eq_true_iff, ← mem_marks_iff_needs found, Prune.mem_marks_sweep]
  refine or_congr_right ⟨?_, fun effect => ?_⟩
  · rintro ⟨other, otherBody, otherDefined, starts⟩
    obtain ⟨start, alsoDeclares, hasCall⟩ := Prune.mem_started_iff.mp starts
    obtain rfl : initial = some start := declaration_unique once (mem_definitions.mpr defined)
      (mem_definitions.mpr otherDefined) declares alsoDeclares
    exact Expr.hasEffect_iff_hasCall.mpr hasCall
  · obtain ⟨start, rfl, effect⟩ := Option.any_eq_true _ _ |>.mp effect
    exact ⟨function, body, defined,
      Prune.mem_started_iff.mpr ⟨start, declares, Expr.hasEffect_iff_hasCall.mp effect⟩⟩

/-! ## Pruned programs -/

/-- The statements that a program can do without: declarations of variables that it does not need,
and expressions without calls. -/
def drops (program : Program) : Stmt → Bool
  | .declare id _ => decide (¬ program.Needs id)
  | .eval value => decide (¬ value.HasCall)
  | _ => false

/-- The global declarations that stay: all but those of variables that are not needed. -/
def keeps (program : Program) : Global → Bool
  | .var id => decide (program.Needs id)
  | _ => true

/-- A variable occurs in the tree of a program: a body mentions or declares it, it is declared
globally, or a function that is defined takes it. -/
inductive Occurs (program : Program) (id : VariableId) : Prop where
  | symbol {function : FunctionId} {body : Block}
      (defined : .definition function body ∈ program.globals) (holds : body.Holds (.var id)) :
      Occurs program id
  | declare {function : FunctionId} {body : Block} {initial : Option Expr}
      (defined : .definition function body ∈ program.globals)
      (declares : .declare id initial ∈ body.stmts) : Occurs program id
  | global (declared : .var id ∈ program.globals) : Occurs program id
  | param {function : FunctionId} {body : Block} {entry : Function} {param : Param}
      (defined : .definition function body ∈ program.globals)
      (known : program.tables.functions[function.index]? = some entry)
      (own : param ∈ entry.params) (same : param.variableId = id) : Occurs program id

/-- The declaration is the same, but for the body of a definition. -/
inductive Reduces : Global → Global → Prop where
  | same (global : Global) : Reduces global global
  | body (function : FunctionId) (body left : Block) :
      Reduces (.definition function body) (.definition function left)

/-- What pruning makes of a program. Only flags of variables change in the tables. The declarations
that stay do so in order; their bodies lose what the program can do without, provided that no
variable is declared twice. -/
structure PrunesTo (program pruned : Program) : Prop where
  tables : pruned.tables = { program.tables with
    vars := program.tables.vars.mapIdx fun index entry =>
      { entry with eliminated := entry.eliminated || decide (¬ program.Needs ⟨index⟩) } }
  globals : List.Forall₂ Reduces (program.globals.filter program.keeps) pruned.globals
  bodies : (Prune.declaredLocals program).Nodup → pruned.globals =
    (program.globals.filter program.keeps).map (Global.mapBody (Block.without program.drops))
  params : ∀ function ∈ program.declaredFunctions, ∀ {entry : Function},
    program.tables.functions[function.index]? = some entry → ∀ param ∈ entry.params,
      pruned.tables.vars[param.variableId.index]? =
        program.tables.vars[param.variableId.index]?

/-- A valid program has no variable out of use in its tree. -/
theorem Occurs.alive (valid : program.check = .ok ()) (occurs : program.Occurs id) :
    ∃ entry, program.tables.vars[id.index]? = some entry ∧ entry.eliminated = false := by
  cases occurs with
  | symbol defined holds =>
    obtain ⟨entry, known, alive, -⟩ :=
      mentioned_alive valid (mem_definitions.mpr defined) (Block.holds_var_iff.mp holds)
    exact ⟨entry, known, alive⟩
  | declare defined declares =>
    obtain ⟨entry, declarable⟩ :=
      declared_declarable valid (mem_definitions.mpr defined) declares rfl
    exact ⟨entry, declarable.known, declarable.alive⟩
  | global declared =>
    obtain ⟨entry, declarable⟩ := global_declarable valid declared
    exact ⟨entry, declarable.known, declarable.alive⟩
  | @param function body signature param defined known own same =>
    obtain ⟨owner, ownerKnown, paramsOk, -⟩ := Validity.checkDefinition_eq_ok_iff.mp
      (check_definition valid (mem_definitions.mpr defined))
    obtain rfl : signature = owner := by simpa [known] using ownerKnown
    obtain ⟨entry, declarable⟩ := paramsOk param own
    exact ⟨entry, same ▸ declarable.known, declarable.alive⟩

section Sweep

variable (found : Prune.referenced program = .ok refs)

include found

/-- A declaration stays exactly if the program needs its variable. -/
theorem keeps_eq {before after : Global} (reduces : Reduces before after) :
    Prune.keeps (Prune.sweep program.globals refs).2 after = program.keeps before := by
  cases reduces with
  | body => rfl
  | same =>
    cases before with
    | var id =>
      simp only [Prune.keeps, keeps]
      rw [Bool.eq_iff_iff, List.contains_iff_mem, mem_marks_iff_needs found, decide_eq_true_iff]
    | struct | prototype | definition => rfl

/-- Exactly the variables that the program does not need go out of use. -/
theorem flag_eq_needs : Prune.flag (Prune.sweep program.globals refs).2 program.tables =
    { program.tables with
      vars := program.tables.vars.mapIdx fun index entry =>
        { entry with eliminated := entry.eliminated || decide (¬ program.Needs ⟨index⟩) } } := by
  have marked (index : Nat) : (Prune.sweep program.globals refs).2.contains ⟨index⟩ =
      decide (program.Needs ⟨index⟩) := by
    rw [Bool.eq_iff_iff, List.contains_iff_mem, mem_marks_iff_needs found, decide_eq_true_iff]
  rw [Prune.flag]
  congr 2
  funext index entry
  rw [marked]
  by_cases needed : program.Needs ⟨index⟩ <;> simp [needed]

end Sweep

/-- A sweep leaves what pruning should make of the program. -/
theorem prunesTo_of_referenced (found : Prune.referenced program = .ok refs) :
    program.PrunesTo ⟨Prune.flag (Prune.sweep program.globals refs).2 program.tables,
      (Prune.sweep program.globals refs).1.filter
        (Prune.keeps (Prune.sweep program.globals refs).2)⟩ where
  tables := flag_eq_needs found
  globals := by
    obtain ⟨-, trimmed⟩ := @Prune.trimmed_globals refs refs program.globals (List.Subset.refl _)
    have reduced : List.Forall₂ Reduces program.globals (Prune.sweep program.globals refs).1 :=
      (trimmed _ (List.Subset.refl _)).imp fun before after trims => by
        cases trims with
        | struct | var | prototype => exact .same _
        | definition function trims => exact .body function _ _
    exact List.rel_filter (fun before after reduces => by simp only [keeps_eq found reduces]) reduced
  bodies once := by
    have between : Prune.Between refs (fun id => decide (program.Needs id)) refs :=
      ⟨List.Subset.refl _, fun id referred => decide_eq_true
        ((mem_marks_iff_needs found).mp ((Prune.mem_marks_sweep _ _).mpr (.inl referred)))⟩
    have drops_eq : Prune.dispensable (fun id => decide (program.Needs id)) = program.drops := by
      funext stmt
      cases stmt with
      | declare id initial => simp [Prune.dispensable, drops]
      | eval value => simp [Prune.dispensable, drops, ← Expr.hasEffect_iff_hasCall]
      | _ => rfl
    rw [Prune.left_sweep between fun _ _ defined => settled_of_once found once defined, drops_eq,
      List.filter_map]
    refine congrArg _ (List.filter_congr fun global _ => ?_)
    refine keeps_eq found ?_
    cases global with
    | definition function body => exact .body function _ _
    | struct | var | prototype => exact .same _
  params function declared entry known param own := by
    have needed : program.Needs param.variableId := .taken declared known own rfl
    rw [flag_eq_needs found, Array.getElem?_mapIdx]
    cases program.tables.vars[param.variableId.index]? <;> simp [needed]

/-- Pruning a valid program succeeds, keeps it valid and removes exactly what it does not need. No
variable of the tree that is left is out of use. A parameter of a function without a definition is
not touched, and may have been out of use before. -/
theorem prune_exact (valid : program.check = .ok ()) (functions : program.FunctionsKnown) :
    ∃ pruned, program.prune = .ok pruned ∧ pruned.check = .ok () ∧ program.PrunesTo pruned ∧
      ∀ id, pruned.Occurs id →
        ∃ entry, pruned.tables.vars[id.index]? = some entry ∧ entry.eliminated = false := by
  obtain ⟨refs, found, refers⟩ := Prune.referenced_ok (functions.known valid)
  have stillValid := refers.pruned.retire_false.valid valid unneeded_false
  exact ⟨_, prune_eq found, stillValid, prunesTo_of_referenced found,
    fun _ occurs => occurs.alive stillValid⟩

/-- A program whose entry point calls a function for the initial value of a variable, declares
another one in a branch and does nothing with either. -/
def idling : Program where
  tables := {
    stage := .fragment
    vars := #[{ name := .temporary "unused", type := .float, scope := .global },
      { name := .temporary "stored", type := .float, scope := .global },
      { name := .temporary "value", type := .float, scope := .parameter },
      { name := .temporary "started", type := .float, scope := .local },
      { name := .temporary "idle", type := .float, scope := .local }]
    functions := #[.named "store" [⟨⟨2⟩, .input⟩] .float .notApplicable,
      .named "main" [] .void .notApplicable] }
  globals := [.prototype ⟨0⟩, .var ⟨0⟩, .var ⟨1⟩,
    .definition ⟨1⟩ [.declare ⟨3⟩ (some (.call ⟨0⟩ [.const (.float 0)])),
      .ifThen (.const (.bool true)) [.declare ⟨4⟩ (some (.var ⟨1⟩)), .eval (.var ⟨1⟩), .discard]],
    .definition ⟨0⟩ [.assign (.var ⟨1⟩) (.var ⟨2⟩), .ret (some (.var ⟨1⟩))]]

/-- The program with idle statements is well-formed, and pruning takes out what it does nothing
with. -/
theorem prune_exact_idling : idling.check = .ok () ∧ idling.FunctionsKnown ∧
    (Prune.declaredLocals idling).Nodup ∧ ∃ pruned, idling.prune = .ok pruned ∧
      pruned.globals = [.prototype ⟨0⟩, .var ⟨1⟩,
        .definition ⟨1⟩ [.declare ⟨3⟩ (some (.call ⟨0⟩ [.const (.float 0)])),
          .ifThen (.const (.bool true)) [.discard]],
        .definition ⟨0⟩ [.assign (.var ⟨1⟩) (.var ⟨2⟩), .ret (some (.var ⟨1⟩))]] := by
  have once : (Prune.declaredLocals idling).Nodup := by decide
  have functions : idling.FunctionsKnown := by decide
  obtain ⟨pruned, prunes, -, exactly, -⟩ := prune_exact rfl functions
  exact ⟨rfl, functions, once, pruned, prunes, (exactly.bodies once).trans rfl⟩

/-- A program that declares a function whose parameter is out of use, and does not define it. -/
def promising : Program where
  tables := {
    stage := .fragment
    vars := #[{ name := .temporary "x", type := .float, scope := .parameter, eliminated := true }]
    functions := #[.named "f" [⟨⟨0⟩, .input⟩] .float .notApplicable,
      .named "main" [] .void .notApplicable] }
  globals := [.prototype ⟨0⟩, .definition ⟨1⟩ []]

/-- The parameters of functions without a definition may be out of use in a valid program, and
pruning leaves them so. -/
theorem prune_leaves_param_out_of_use : promising.check = .ok () ∧ promising.FunctionsKnown ∧
    ∃ pruned, promising.prune = .ok pruned ∧ ∃ function ∈ pruned.declaredFunctions, ∃ signature,
      pruned.tables.functions[function.index]? = some signature ∧ ∃ param ∈ signature.params,
        ∃ entry, pruned.tables.vars[param.variableId.index]? = some entry ∧
          entry.eliminated = true := by
  refine ⟨rfl, by decide, _, rfl, ⟨0⟩, List.mem_cons_self, _, rfl, _, List.mem_cons_self, _, rfl, rfl⟩

end Program

end ShaderPipeline
