import ShaderPipeline.Proofs.ExactPruning
import ShaderPipeline.Proofs.Semantics.Agreement

/-!
# Runs of a pruned program

An expression without calls only gives a value, so a statement that pruning drops
changes at most a variable that nothing refers to. The stores of a program and of
what pruning leaves of it agree on all other variables.
-/

namespace ShaderPipeline

namespace Setting

variable {setting : Setting}

/-- The run ends with an operand and leaves the store alone. -/
def Gives {α : Type} (run : Run α) : Prop :=
  ∀ store, ∃ value, run store = some (some value, store)

/-- Runs that give something and leave the store do so one after the other. -/
theorem Gives.bind {α β : Type} {first : Run α} {next : α → Run β} (begins : Gives first)
    (continues : ∀ value, Gives (next value)) : Gives (first >>= next) := by
  intro store
  obtain ⟨value, runs⟩ := begins store
  rw [Run.bind_of_some runs]
  exact continues value store

/-- A value is given at once. -/
theorem gives_pure {α : Type} (value : α) : Gives (pure value) := fun _ => ⟨value, rfl⟩

/-- Reading an operand gives its value. -/
theorem gives_load (operand : Operand) : Gives (Run.load operand) := fun _ => ⟨_, rfl⟩

/-- Several expressions give their operands if each of them does. -/
theorem evalAll_gives {args : List Expr} (each : ∀ arg ∈ args, Gives (setting.eval arg)) :
    Gives (setting.evalAll args) := by
  induction args with
  | nil => exact gives_pure _
  | cons arg args inductionHypothesis =>
    rw [List.forall_mem_cons] at each
    rw [evalAll]
    exact each.1.bind fun operand => (gives_load operand).bind fun _ =>
      (inductionHypothesis each.2).bind fun _ => gives_pure _

/-- An expression that calls nothing only gives an operand. -/
theorem eval_gives {expr : Expr} (idle : expr.hasEffect = false) : Gives (setting.eval expr) := by
  induction expr with
  | const | var => exact gives_pure _
  | field base position inBase =>
    rw [eval]
    exact (inBase idle).bind fun _ => gives_pure _
  | index base position inBase inPosition =>
    rw [Expr.hasEffect, Bool.or_eq_false_iff] at idle
    rw [eval]
    exact (inBase idle.1).bind fun _ => (inPosition idle.2).bind fun operand =>
      (gives_load operand).bind fun _ => gives_pure _
  | unary op operand inOperand | addressOf operand inOperand =>
    rw [eval]
    exact (inOperand idle).bind fun operand => (gives_load operand).bind fun _ => gives_pure _
  | binary op left right inLeft inRight =>
    rw [Expr.hasEffect, Bool.or_eq_false_iff] at idle
    rw [eval]
    refine (inLeft idle.1).bind fun operand => (gives_load operand).bind fun value => ?_
    split
    · exact gives_pure _
    · exact (inRight idle.2).bind fun operand => (gives_load operand).bind fun _ => gives_pure _
  | construct type args inArgs =>
    rw [Expr.hasEffect, Expr.hasEffects_eq_any, List.any_eq_false] at idle
    rw [eval]
    exact (evalAll_gives fun arg member => inArgs arg member (by simpa using idle arg member)).bind
      fun _ => gives_pure _
  | call callee args => simp [Expr.hasEffect] at idle
  | sample sampler coordinates inSampler inCoordinates =>
    rw [Expr.hasEffect, Bool.or_eq_false_iff] at idle
    rw [eval]
    exact (inSampler idle.1).bind fun operand => (gives_load operand).bind fun _ =>
      (inCoordinates idle.2).bind fun operand => (gives_load operand).bind fun _ => gives_pure _

end Setting

namespace Coupling

/-- The variables that matter: the global ones and those that are referred to. -/
def Matters (refs : List VariableId) : Root → Prop
  | .global _ => True
  | .frame _ id => id ∈ refs

variable {refs marks : List VariableId} {setting changed : Setting}

/-- A statement that does nothing can be left out. -/
theorem simulates_idle {stmt : Stmt} (idle : Prune.Idle refs stmt)
    (unseen : ∀ id initial, stmt = .declare id initial → id ∉ refs →
      ¬ Matters refs (setting.locate id).root) :
    (agreeing False (Matters refs)).Simulates (Flows (Always Eq)) (setting.exec stmt)
      (changed.execAll []) := by
  intro store other agree
  cases stmt with
  | declare id initial =>
    have gives : Setting.Gives (setting.declared id initial) := by
      cases initial with
      | none => exact Setting.gives_pure _
      | some initial => exact (Setting.eval_gives (idle.2 initial rfl)).bind Setting.gives_load
    obtain ⟨value, runs⟩ := gives store
    rw [Setting.exec, Run.bind_of_some runs]
    refine .done (fun root matters => ?_) .next
    have apart : root ≠ (setting.locate id).root := by
      rintro rfl
      exact unseen id initial rfl idle.1 matters
    exact (agree root matters).trans (Store.write_of_ne _ _ apart).symm
  | eval value =>
    obtain ⟨operand, runs⟩ := (Setting.eval_gives idle : Setting.Gives (setting.eval value)) store
    rw [Setting.exec, Run.bind_of_some runs]
    exact .done agree .next
  | _ => exact absurd idle id

/-- A trimmed block follows the block. -/
theorem follows_trimmed {rule : Expr → Prop} {replaces : Stmt → Block → Prop} {body trimmed : Block}
    (trims : Prune.Trims refs marks body trimmed) (every : Block.Every rule body)
    (drops : ∀ stmt ∈ body.stmts, Prune.Idle refs stmt → replaces stmt []) :
    Follows (fun expr result => expr.Every rule ∧ result = expr) (fun _ => True) (fun _ => True)
      replaces body trimmed := by
  have optional {value : Option Expr} (all : ∀ root ∈ value.toList, root.Every rule) :
      Option.Rel (fun expr result => Expr.Every rule expr ∧ result = expr) value value := by
    cases value with
    | none => exact .none
    | some value => exact .some ⟨all value (by simp), rfl⟩
  induction trims with
  | nil => exact .nil
  | @drop stmt rest after idle _ inTail =>
    simp only [Block.every_cons] at every
    simp only [Block.stmts, Stmt.nodesOfAll, List.mem_append, or_imp, forall_and] at drops
    exact .replaced (drops.1 stmt (Stmt.self_mem_nodes stmt) idle) (inTail every.2 drops.2)
  | @keep stmt rest after lasts _ inTail =>
    simp only [Block.every_cons] at every
    simp only [Block.stmts, Stmt.nodesOfAll, List.mem_append, or_imp, forall_and] at drops
    have tail := inTail every.2 drops.2
    cases stmt with
    | declare id initial => exact .declare trivial (optional (by simpa using every.1)) tail
    | eval value => exact .eval ⟨every.1 value (by simp), rfl⟩ tail
    | assign target value =>
      exact .assign ⟨every.1 target (by simp), rfl⟩ ⟨every.1 value (by simp), rfl⟩ tail
    | ret value => exact .ret trivial (optional (by simpa using every.1)) tail
    | brk => exact .brk tail
    | cont => exact .cont tail
    | discard => exact .discard tail
    | ifThen | ifElse | loop | block => exact absurd lasts id
  | ifThen condition _ _ inner inTail =>
    simp only [Block.every_cons, Stmt.roots_ifThen, List.forall_mem_cons] at every
    simp only [Block.stmts, Stmt.nodesOfAll, Stmt.nodes, List.mem_append, List.mem_cons, or_imp,
      forall_and] at drops
    exact .ifThen ⟨every.1.1, rfl⟩ (inner every.1.2 drops.1.2) (inTail every.2 drops.2)
  | ifElse condition _ _ _ inYes inNo inTail =>
    simp only [Block.every_cons, Stmt.roots_ifElse, List.forall_mem_cons,
      List.forall_mem_append] at every
    simp only [Block.stmts, Stmt.nodesOfAll, Stmt.nodes, List.mem_append, List.mem_cons, or_imp,
      forall_and] at drops
    exact .ifElse ⟨every.1.1, rfl⟩ (inYes every.1.2.1 drops.1.2.1) (inNo every.1.2.2 drops.1.2.2)
      (inTail every.2 drops.2)
  | loop condition _ _ inner inTail =>
    simp only [Block.every_cons, Stmt.roots_loop, List.forall_mem_cons] at every
    simp only [Block.stmts, Stmt.nodesOfAll, Stmt.nodes, List.mem_append, List.mem_cons, or_imp,
      forall_and] at drops
    exact .loop ⟨every.1.1, rfl⟩ (inner every.1.2 drops.1.2) (inTail every.2 drops.2)
  | block _ _ inner inTail =>
    simp only [Block.every_cons, Stmt.roots_block] at every
    simp only [Block.stmts, Stmt.nodesOfAll, Stmt.nodes, List.mem_append, List.mem_cons, or_imp,
      forall_and] at drops
    exact .block (inner every.1 drops.1.2) (inTail every.2 drops.2)

end Coupling

namespace Program

open Coupling

variable {program result : Program} {refs marks : List VariableId}

/-- What pruning leaves of a program, as far as a run can tell. -/
structure Thins (program result : Program) (refs marks : List VariableId) : Prop where
  functions : result.tables.functions = program.tables.functions
  references : result.tables.isReference = program.tables.isReference
  scopes : result.tables.isGlobal = program.tables.isGlobal
  initials : result.tables.initial = program.tables.initial
  starts : result.tables.start = program.tables.start
  refers : Prune.Refers program refs
  definitions : List.Forall₂ (fun before after => after.1 = before.1 ∧
    Prune.Trims refs marks before.2 after.2) program.definitions result.definitions

/-- Pruning does so, also after some variables were taken out of use. -/
theorem Pruned.thins {gone : VariableId → Bool}
    (pruned : (program.retire gone).Pruned result refs marks) : program.Thins result refs marks where
  functions := by simp [pruned.tables, retire]
  references := by simp [pruned.tables, retire]
  scopes := by simp [pruned.tables, retire]
  initials := by simp [pruned.tables, retire]
  starts := by simp [pruned.tables, retire]
  refers := ⟨pruned.refers.mentioned, pruned.refers.params⟩
  definitions := pruned.definitions

/-- What is declared inside a function is no global variable. -/
theorem declared_local (valid : program.check = .ok ()) {definition : FunctionId × Block}
    (defined : definition ∈ program.definitions) {id : VariableId} {initial : Option Expr}
    (declares : .declare id initial ∈ definition.2.stmts) : program.tables.isGlobal id = false := by
  obtain ⟨entry, declarable⟩ := declared_declarable valid defined declares rfl
  simp [Tables.isGlobal, declarable.known, declarable.scope]

/-- The entry point stays the same. -/
theorem Thins.enters (thins : program.Thins result refs marks) {main : FunctionId}
    (enters : program.Enters main) : result.Enters main where
  defined := by
    obtain ⟨body, defined⟩ := enters.defined
    obtain ⟨⟨_, trimmed⟩, there, rfl, -⟩ := Outcome.forall₂_exists_right thins.definitions defined
    exact ⟨trimmed, there⟩
  isMain := by
    intro definition defined
    obtain ⟨before, there, same, -⟩ := Outcome.forall₂_exists_left thins.definitions defined
    rw [thins.functions, same]
    exact enters.isMain before there

/-- The first definition of a function is trimmed where it stands. -/
theorem Thins.body? (thins : program.Thins result refs marks) (function : FunctionId) :
    (program.body? function = none ∧ result.body? function = none) ∨
      ∃ body trimmed, (function, body) ∈ program.definitions ∧
        program.body? function = some body ∧ result.body? function = some trimmed ∧
        Prune.Trims refs marks body trimmed := by
  have each := thins.definitions
  simp only [Program.body?]
  generalize program.definitions = before at each ⊢
  generalize result.definitions = after at each ⊢
  induction each with
  | nil => exact .inl ⟨rfl, rfl⟩
  | @cons definition trimmed _ _ head _ inductionHypothesis =>
    by_cases here : definition.1 = function
    · refine .inr ⟨definition.2, trimmed.2, by simp [← here], ?_, ?_, head.2⟩
      · simp [here]
      · simp [head.1, here]
    · have skipped : (trimmed.1 == function) = false := by simpa [head.1] using here
      have passed : (definition.1 == function) = false := by simpa using here
      simp only [List.find?_cons, skipped, passed]
      rcases inductionHypothesis with absent | ⟨body, rest, defined, found⟩
      · exact .inl absent
      · exact .inr ⟨body, rest, List.mem_cons_of_mem _ defined, found⟩

section Runs

variable (thins : program.Thins result refs marks) (valid : program.check = .ok ())
  (plain : program.Plain)

include thins valid plain

/-- A trimmed body does the same. -/
theorem Thins.bodies {definition : FunctionId × Block} (defined : definition ∈ program.definitions)
    {signature : Function}
    (known : program.tables.functions[definition.1.index]? = some signature) {trimmed : Block}
    (trims : Prune.Trims refs marks definition.2 trimmed) :
    (agreeing False (Matters refs)).Bodies program result Itself 0 signature [] definition.2
      trimmed := by
  intro interp fuel more depth pairs others invoke invokes least most _ same own calls
  have uses : Block.Every (Expr.Uses (· ∈ refs) (fun _ => True) fun _ => False) definition.2 :=
    Block.every_uses (fun id mentioned => thins.refers.mentioned definition defined mentioned)
      (fun _ _ => trivial) (plain definition defined)
  have settings : (agreeing False (Matters refs)).Settings
      (program.tables.frame interp fuel depth pairs invoke)
      (result.tables.frame interp more depth others invokes) {} (· ∈ refs) fun _ => True :=
    settings_agreeing least most same thins.references thins.scopes (fun _ => trivial)
      (fun _ referred => referred) calls
  -- Only variables that nothing refers to lose their declaration, so no parameter does.
  have unseen {id : VariableId} (isLocal : program.tables.isGlobal id = false) (free : id ∉ refs) :
      ¬ Matters refs (program.tables.locate depth pairs id).root := by
    have noParam : pairs.find? (fun pair => pair.1.variableId == id) = none := by
      rw [List.find?_eq_none]
      intro pair member isId
      refine free ?_
      rw [← beq_iff_eq.mp isId]
      exact thins.refers.params definition defined known _ (own pair member)
    simpa [Tables.locate, noParam, isLocal, Matters] using free
  have parts : (agreeing False (Matters refs)).Parts
      (program.tables.frame interp fuel depth pairs invoke)
      (result.tables.frame interp more depth others invokes)
      (fun expr result => expr.Every (Expr.Uses (· ∈ refs) (fun _ => True) fun _ => False) ∧
        result = expr) (fun _ => True) (fun _ => True)
      (fun stmt news => news = [] ∧ Prune.Idle refs stmt ∧ ∀ id initial,
        stmt = .declare id initial → program.tables.isGlobal id = false) (Always Eq) := {
    least := least
    most := most
    exprs := fun expr other ⟨usesExpr, isSame⟩ => by
      have evals := settings.eval usesExpr
      rw [Expr.subst_default] at evals
      exact isSame ▸ evals
    declares := fun id _ => ⟨congrFun thins.initials id, fun value => by
      have place : result.tables.locate depth others id = program.tables.locate depth pairs id :=
        locate_agreeing same thins.references thins.scopes id
      simpa only [Tables.frame, place] using agreeing_write _ value⟩
    returning := fun _ _ _ _ _ => rfl
    replaces := fun stmt news ⟨isNil, idle, isLocal⟩ => isNil ▸ simulates_idle idle
      fun id initial isDeclare => unseen (isLocal id initial isDeclare) }
  refine parts.execAll (follows_trimmed trims uses fun stmt inside idle => ⟨rfl, idle, ?_⟩)
  rintro id initial rfl
  exact declared_local valid defined inside

/-- Calls in a pruned program do the same. -/
theorem Thins.programs : (agreeing False (Matters refs)).Programs program result Itself 0 where
  clear _ _ _ agree root matters := by
    cases root with
    | global id => exact agree _ matters
    | frame level id => simp only [Tables.clear, thins.initials, agree _ matters]
  twins := by
    rintro _ function _ ⟨rfl, rfl⟩
    rcases thins.body? function with ⟨absent, alsoAbsent⟩ |
      ⟨body, trimmed, defined, hasBody, otherBody, trims⟩
    · exact .missing absent alsoAbsent
    · obtain ⟨signature, known, -⟩ :=
        Validity.checkDefinition_eq_ok_iff.mp (check_definition valid defined)
      exact .defined known hasBody (thins.functions ▸ known) otherBody
        (List.nil_append _).symm rfl (by simp) (fun _ _ => congrFun thins.references _)
        (fun param own _ _ => ⟨thins.refers.params _ defined known param own, rfl⟩)
        (thins.bodies valid plain defined known trims)

/-- From the same store, the entry points of a program and of what pruning leaves of it go the same
way. -/
theorem Thins.enterMain_matches {main : FunctionId} (enters : program.Enters main)
    (interp : Interpretation) (fuel : Nat) (args : List Value) (store : Store) :
    (agreeing False (Matters refs)).Matches (Always Eq)
      (program.enterMain interp fuel args store) (result.enterMain interp fuel args store) := by
  rw [enters.enterMain_eq, (thins.enters enters).enterMain_eq]
  exact (thins.programs valid plain).call interp (Nat.le_refl fuel) (.inr rfl) (Nat.zero_le 0)
    (⟨rfl, rfl⟩ : Itself main main []) (passes_values args) _ _ fun _ _ => rfl

end Runs

/-- A pruned program has the same ends. -/
theorem Thins.ends_iff (thins : program.Thins result refs marks) (orderly : program.Orderly)
    (plain : program.Plain) {main : FunctionId} (enters : program.Enters main)
    (interp : Interpretation) (given : VariableId → Option Value) (args : List Value)
    (watched : VariableId → Prop) (outcome : Option Value) (values : VariableId → Value) :
    program.Ends interp given args watched outcome values ↔
      result.Ends interp given args watched outcome values := by
  refine @Program.ends_iff _ (agreeing False (Matters refs)) _ _ _ _ _ _ ⟨id, id⟩
    (fun agree id _ => agree _ trivial) (fun fuel => ?_) outcome values
  rw [thins.starts]
  exact thins.enterMain_matches orderly.valid plain enters interp fuel args _

/-- Pruning keeps the meaning of a program without addresses: from any store, the entry point ends
with an outcome and with values of the global variables that are left exactly if it did before. -/
theorem prune_keeps_meaning (valid : program.check = .ok ()) (functions : program.FunctionsKnown)
    (plain : program.Plain) :
    ∃ pruned, program.prune = .ok pruned ∧ ∀ interp store args outcome values,
      program.EndsFrom interp store args (· ∈ pruned.globalVariables) outcome values ↔
        pruned.EndsFrom interp store args (· ∈ pruned.globalVariables) outcome values := by
  obtain ⟨pruned, refs, marks, prunes, isPruned⟩ := prune_ok (functions.known valid)
  obtain ⟨main, enters⟩ := enters_of_mainCount (check_eq_ok_iff.mp valid).1
  refine ⟨pruned, prunes, fun interp store args outcome values => ?_⟩
  exact @endsFrom_iff _ (agreeing False (Matters refs)) _ _ _ _ _ _ _ ⟨id, id⟩
    (fun agree id _ => agree _ trivial)
    (fun fuel => isPruned.retire_false.thins.enterMain_matches valid plain enters interp fuel args
      store) outcome values

/-- Two declarations and an expression of `idling` go, and its runs stay the same. -/
theorem prune_keeps_meaning_idling : idling.check = .ok () ∧ idling.FunctionsKnown ∧
    idling.Plain ∧ ∃ pruned, idling.prune = .ok pruned ∧ ∀ interp store args outcome values,
      idling.EndsFrom interp store args (· ∈ pruned.globalVariables) outcome values ↔
        pruned.EndsFrom interp store args (· ∈ pruned.globalVariables) outcome values := by
  have functions : idling.FunctionsKnown := by decide
  have plain : idling.Plain := by decide
  exact ⟨rfl, functions, plain, prune_keeps_meaning rfl functions plain⟩

end Program

end ShaderPipeline
