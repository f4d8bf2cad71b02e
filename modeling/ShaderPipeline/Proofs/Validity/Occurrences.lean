import ShaderPipeline.Proofs.Tree
import ShaderPipeline.Proofs.Validity.Rules

/-!
# What occurs in a valid body

Every variable that a valid body mentions is known, in use, and declared if it is
a global one; every function that it calls may be called, and every variable that
it declares is a local one.
-/

namespace ShaderPipeline

namespace Validity

variable {context : Context} {visible : List VariableId}

/-- A variable is known and in use, and declared if it is a global one. -/
def Alive (context : Context) (id : VariableId) : Prop :=
  ∃ entry, context.tables.vars[id.index]? = some entry ∧ entry.eliminated = false ∧
    (entry.scope = .global → id ∈ context.globals)

/-- What is visible inside a function is not global. -/
def Inner (tables : Tables) (visible : List VariableId) : Prop :=
  ∀ id ∈ visible, ∃ expected entry, Declarable tables expected id entry ∧ expected ≠ .global

/-- An expression is valid at a place inside a function. -/
def Checked (context : Context) (expr : Expr) : Prop :=
  ∃ visible, Inner context.tables visible ∧ checkExpr context visible expr = .ok ()

/-- The parts of a valid expression are valid where it is. -/
theorem checkExpr_every {expr : Expr} (checked : checkExpr context visible expr = .ok ()) :
    expr.Every fun node => checkExpr context visible node = .ok () := by
  induction expr with
  | const value => exact Expr.every_const.mpr checked
  | var id => exact Expr.every_var.mpr checked
  | field base position inBase =>
    exact Expr.every_field.mpr ⟨checked, inBase (checkExpr_field_iff.mp checked).1⟩
  | index base position inBase inPosition =>
    obtain ⟨baseOk, positionOk, -⟩ := checkExpr_index_iff.mp checked
    exact Expr.every_index.mpr ⟨checked, inBase baseOk, inPosition positionOk⟩
  | unary op operand inOperand =>
    exact Expr.every_unary.mpr ⟨checked, inOperand (checkExpr_unary.symm.trans checked)⟩
  | binary op left right inLeft inRight =>
    obtain ⟨leftOk, rightOk⟩ := checkExpr_binary_iff.mp checked
    exact Expr.every_binary.mpr ⟨checked, inLeft leftOk, inRight rightOk⟩
  | construct type args inArgs =>
    have argsOk := checkExpr_construct_iff.mp checked
    exact Expr.every_construct.mpr ⟨checked, fun arg member => inArgs arg member (argsOk arg member)⟩
  | call callee args inArgs =>
    obtain ⟨argsOk, -⟩ := checkExpr_call_iff.mp checked
    exact Expr.every_call.mpr ⟨checked, fun arg member => inArgs arg member (argsOk arg member)⟩
  | sample sampler coordinates inSampler inCoordinates =>
    obtain ⟨samplerOk, coordinatesOk⟩ := checkExpr_sample_iff.mp checked
    exact Expr.every_sample.mpr ⟨checked, inSampler samplerOk, inCoordinates coordinatesOk⟩
  | addressOf operand inOperand =>
    exact Expr.every_addressOf.mpr ⟨checked, inOperand (checkExpr_addressOf.symm.trans checked)⟩

/-- All parts of a valid expression are valid where it stands. -/
theorem checkExpr_checked {expr : Expr} (inner : Inner context.tables visible)
    (checked : checkExpr context visible expr = .ok ()) : expr.Every (Checked context) :=
  (checkExpr_every checked).imp fun _ nodeOk => ⟨visible, inner, nodeOk⟩

/-- What a valid expression refers to. -/
def Occurs (context : Context) : Expr → Prop :=
  Expr.Uses (Alive context) (fun callee => ∃ count, Callable context callee count)
    fun _ => True

/-- What a valid expression refers to occurs as it should. -/
theorem Checked.occurs {expr : Expr} (checked : Checked context expr) : Occurs context expr := by
  obtain ⟨visible, inner, exprOk⟩ := checked
  cases expr with
  | var id =>
    obtain ⟨inScope, entry, known, alive⟩ := checkExpr_var_iff.mp exprOk
    refine ⟨entry, known, alive, fun isGlobal => inScope.resolve_right fun member => ?_⟩
    obtain ⟨expected, other, declarable, notGlobal⟩ := inner id member
    obtain rfl : other = entry := by simpa [known] using declarable.known.symm
    exact notGlobal (declarable.scope.symm.trans isGlobal)
  | call callee args => exact ⟨_, (checkExpr_call_iff.mp exprOk).2⟩
  | _ => trivial

/-- What occurs in a statement: its expressions, and the variables that it and the statements nested
in it declare. -/
def StmtOccurs (context : Context) (stmt : Stmt) : Prop :=
  (∀ root ∈ stmt.roots, root.Every (Checked context)) ∧
    ∀ node ∈ stmt.nodes, ∀ id, Prune.declared? node = some id →
      ∃ entry, Declarable context.tables .local id entry

/-- What a valid statement opens is a local variable. -/
theorem Inner.opens (inner : Inner context.tables visible) {stmt : Stmt}
    (keeps : Keeps context visible stmt) : Inner context.tables (opens stmt visible) := by
  cases stmt with
  | declare id initial =>
    obtain ⟨entry, declarable⟩ := keeps.2
    exact List.forall_mem_cons.mpr ⟨⟨.local, entry, declarable, by simp⟩, inner⟩
  | _ => exact inner

/-- What occurs in a block, if it is so for its statements. -/
theorem blockOccurs_of_each {stmts : List Stmt}
    (each : ∀ stmt ∈ stmts, ∀ visible, Inner context.tables visible →
      Keeps context visible stmt → StmtOccurs context stmt) (inner : Inner context.tables visible)
    (checked : checkStmts context stmts visible = .ok ()) :
    Block.Every (Checked context) stmts ∧ ∀ node ∈ Stmt.nodesOfAll stmts, ∀ id,
      Prune.declared? node = some id → ∃ entry, Declarable context.tables .local id entry := by
  induction stmts generalizing visible with
  | nil => simp [Stmt.nodesOfAll]
  | cons stmt stmts inductionHypothesis =>
    rw [List.forall_mem_cons] at each
    obtain ⟨here, rest⟩ := checkStmts_cons_iff.mp checked
    obtain ⟨roots, nodes⟩ := each.1 visible inner here
    obtain ⟨restRoots, restNodes⟩ := inductionHypothesis each.2 (inner.opens here) rest
    exact ⟨Block.every_cons.mpr ⟨roots, restRoots⟩,
      List.forall_mem_append.mpr ⟨nodes, restNodes⟩⟩

/-- What a valid statement holds and declares occurs as it should. -/
theorem keeps_occurs (stmt : Stmt) (visible : List VariableId)
    (inner : Inner context.tables visible) (keeps : Keeps context visible stmt) :
    StmtOccurs context stmt := by
  have silent {node : Stmt} (none : Prune.declared? node = none) (id : VariableId)
      (declares : Prune.declared? node = some id) :
      ∃ entry, Declarable context.tables .local id entry := by simp [none] at declares
  induction stmt generalizing visible with
  | declare id initial =>
    obtain ⟨initialOk, declarable⟩ := keeps
    refine ⟨fun root own => checkExpr_checked inner (initialOk root (by simpa using own)), ?_⟩
    intro node member other declares
    obtain rfl : node = .declare id initial := by simpa [Stmt.nodes] using member
    obtain rfl : id = other := by simpa [Prune.declared?] using declares
    exact declarable
  | eval value =>
    refine ⟨by simpa using checkExpr_checked inner keeps, fun node member => ?_⟩
    obtain rfl : node = .eval value := by simpa [Stmt.nodes] using member
    exact silent rfl
  | assign target value =>
    refine ⟨by simpa using ⟨checkExpr_checked inner keeps.1, checkExpr_checked inner keeps.2⟩,
      fun node member => ?_⟩
    obtain rfl : node = .assign target value := by simpa [Stmt.nodes] using member
    exact silent rfl
  | ifThen condition yes inYes =>
    obtain ⟨conditionOk, yesOk⟩ := keeps
    obtain ⟨roots, nodes⟩ := blockOccurs_of_each inYes inner yesOk
    refine ⟨?_, List.forall_mem_cons.mpr ⟨silent rfl, nodes⟩⟩
    rw [Stmt.roots_ifThen, List.forall_mem_cons]
    exact ⟨checkExpr_checked inner conditionOk, roots⟩
  | ifElse condition yes no inYes inNo =>
    obtain ⟨conditionOk, yesOk, noOk⟩ := keeps
    obtain ⟨yesRoots, yesNodes⟩ := blockOccurs_of_each inYes inner yesOk
    obtain ⟨noRoots, noNodes⟩ := blockOccurs_of_each inNo inner noOk
    refine ⟨?_, List.forall_mem_cons.mpr ⟨silent rfl, List.forall_mem_append.mpr
      ⟨yesNodes, noNodes⟩⟩⟩
    rw [Stmt.roots_ifElse, List.forall_mem_cons, List.forall_mem_append]
    exact ⟨checkExpr_checked inner conditionOk, yesRoots, noRoots⟩
  | loop condition body inBody =>
    obtain ⟨conditionOk, bodyOk⟩ := keeps
    obtain ⟨roots, nodes⟩ := blockOccurs_of_each inBody inner bodyOk
    refine ⟨?_, List.forall_mem_cons.mpr ⟨silent rfl, nodes⟩⟩
    rw [Stmt.roots_loop, List.forall_mem_cons]
    exact ⟨checkExpr_checked inner conditionOk, roots⟩
  | block body inBody =>
    obtain ⟨roots, nodes⟩ := blockOccurs_of_each inBody inner keeps
    refine ⟨?_, List.forall_mem_cons.mpr ⟨silent rfl, nodes⟩⟩
    rw [Stmt.roots_block]
    exact roots
  | ret value =>
    refine ⟨fun root own => checkExpr_checked inner (keeps.2 root (by simpa using own)),
      fun node member => ?_⟩
    obtain rfl : node = .ret value := by simpa [Stmt.nodes] using member
    exact silent rfl
  | brk | cont | discard =>
    refine ⟨by simp, fun node member => ?_⟩
    obtain rfl : node = _ := List.mem_singleton.mp member
    exact silent rfl

/-- What occurs in a valid definition is valid where it stands, and it declares local variables. -/
theorem checkDefinition_checked {program : Program} {function : FunctionId} {body : Block}
    (checked : checkDefinition program function body = .ok ()) :
    Block.Every (Checked (contextOf program function)) body ∧ ∀ node ∈ Block.stmts body, ∀ id,
      Prune.declared? node = some id → ∃ entry, Declarable program.tables .local id entry := by
  obtain ⟨entry, -, paramsOk, bodyOk⟩ := checkDefinition_eq_ok_iff.mp checked
  refine blockOccurs_of_each (fun stmt _ => keeps_occurs stmt)
    (List.forall_mem_map.mpr fun param member => ?_) bodyOk
  obtain ⟨declared, declarable⟩ := paramsOk param member
  exact ⟨.parameter, declared, declarable, by simp⟩

/-- What a valid definition refers to. -/
theorem checkDefinition_occurs {program : Program} {function : FunctionId} {body : Block}
    (checked : checkDefinition program function body = .ok ()) :
    Block.Every (Occurs (contextOf program function)) body :=
  fun root own => ((checkDefinition_checked checked).1 root own).imp fun _ => Checked.occurs

end Validity

end ShaderPipeline
