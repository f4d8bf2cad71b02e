import ShaderPipeline.Proofs.Program
import ShaderPipeline.Prune
import ShaderPipeline.Validity

/-!
# What passes the check

The check stops at the first violation. Read as a rule, it holds of a construct
exactly if it holds of its parts and the construct itself is in order.
-/

namespace ShaderPipeline

namespace Validity

variable {context : Context} {visible next : List VariableId}

@[simp] theorem obey_eq_ok_iff {kept : Bool} {violation : Violation} {nothing : Unit} :
    obey kept violation = .ok nothing ↔ kept = true := by
  cases kept <;> simp [obey, violated]

@[simp] theorem violated_ne_ok {α : Type} {violation : Violation} {value : α} :
    violated violation ≠ .ok value := by
  simp [violated]

/-- A variable is declared as it should be. -/
structure Declarable (tables : Tables) (expected : Scope) (id : VariableId) (entry : Variable) :
    Prop where
  known : tables.vars[id.index]? = some entry
  alive : entry.eliminated = false
  scope : entry.scope = expected
  reference : entry.reference = none ∨ expected = .parameter

/-- The check of a declared variable passes exactly if it is declared as it should be. -/
theorem checkVariable_eq_ok_iff {tables : Tables} {expected : Scope} {id : VariableId} :
    checkVariable tables expected id = .ok () ↔
      ∃ entry, Declarable tables expected id entry := by
  unfold checkVariable
  split
  case h_1 unknown =>
    constructor
    · simp
    · rintro ⟨entry, known, -⟩
      simp [unknown] at known
  case h_2 entry known =>
    simp only [Outcome.bind_eq_ok_iff, Outcome.exists_unit, obey_eq_ok_iff, Bool.not_eq_true',
      decide_eq_true_eq, Bool.or_eq_true, Option.isNone_iff_eq_none]
    constructor
    · rintro ⟨alive, scope, reference⟩
      exact ⟨entry, known, alive, scope, reference⟩
    · rintro ⟨other, otherKnown, alive, scope, reference⟩
      obtain rfl : other = entry := by simpa [known] using otherKnown.symm
      exact ⟨alive, scope, reference⟩

/-! ## Expressions -/

section Expressions

attribute [local simp] checkExpr

@[simp] theorem checkExpr_const (value : Constant) :
    checkExpr context visible (.const value) = .ok () := by
  simp

/-- A mention passes exactly if the variable is global or visible, and in use. -/
theorem checkExpr_var_iff {id : VariableId} :
    checkExpr context visible (.var id) = .ok () ↔
      (id ∈ context.globals ∨ id ∈ visible) ∧
        ∃ entry, context.tables.vars[id.index]? = some entry ∧ entry.eliminated = false := by
  simp only [checkExpr, Outcome.bind_eq_ok_iff, Outcome.exists_unit, obey_eq_ok_iff, Bool.or_eq_true,
    List.contains_iff_mem, Tables.variableAt_eq_ok_iff, Bool.not_eq_true']

/-- A field passes exactly if its base does and is a struct that has the field. -/
theorem checkExpr_field_iff {base : Expr} {position : Nat} :
    checkExpr context visible (.field base position) = .ok () ↔
      checkExpr context visible base = .ok () ∧ ∃ type name fields,
        context.tables.typeOf base = .ok type ∧
        context.tables.types[type.index]? = some (.struct name fields) ∧
        position < fields.length := by
  simp only [checkExpr, Outcome.bind_eq_ok_iff, Outcome.exists_unit, Tables.typeAt_eq_ok_iff]
  constructor
  · rintro ⟨baseOk, type, typed, entry, known, rest⟩
    cases entry with
    | struct name fields =>
      exact ⟨baseOk, type, name, fields, typed, known, by simpa [Ty.fields?] using rest⟩
    | scalar | vector | matrix | image | texture | sampler | array | pointer | eliminated =>
      simp [Ty.fields?] at rest
  · rintro ⟨baseOk, type, name, fields, typed, known, inside⟩
    exact ⟨baseOk, type, typed, _, known, by simpa [Ty.fields?] using inside⟩

/-- An element passes exactly if its base and its position do, and the base has elements. -/
theorem checkExpr_index_iff {base position : Expr} :
    checkExpr context visible (.index base position) = .ok () ↔
      checkExpr context visible base = .ok () ∧ checkExpr context visible position = .ok () ∧
        ∃ type entry element, context.tables.typeOf base = .ok type ∧
          context.tables.types[type.index]? = some entry ∧ entry.element? = some element := by
  simp only [checkExpr, Outcome.bind_eq_ok_iff, Outcome.exists_unit, Tables.typeAt_eq_ok_iff,
    obey_eq_ok_iff, Option.isSome_iff_exists]
  constructor
  · rintro ⟨baseOk, positionOk, type, typed, entry, known, element, isElement⟩
    exact ⟨baseOk, positionOk, type, entry, element, typed, known, isElement⟩
  · rintro ⟨baseOk, positionOk, type, entry, element, typed, known, isElement⟩
    exact ⟨baseOk, positionOk, type, typed, entry, known, element, isElement⟩

@[simp] theorem checkExpr_unary {op : UnaryOp} {operand : Expr} :
    checkExpr context visible (.unary op operand) = checkExpr context visible operand := by
  simp

/-- An operation passes exactly if both operands do. -/
theorem checkExpr_binary_iff {op : BinaryOp} {left right : Expr} :
    checkExpr context visible (.binary op left right) = .ok () ↔
      checkExpr context visible left = .ok () ∧ checkExpr context visible right = .ok () := by
  simp [Outcome.bind_eq_ok_iff]

/-- A look-up of a texel passes exactly if the sampler and the coordinates do. -/
theorem checkExpr_sample_iff {sampler coordinates : Expr} :
    checkExpr context visible (.sample sampler coordinates) = .ok () ↔
      checkExpr context visible sampler = .ok () ∧
        checkExpr context visible coordinates = .ok () := by
  simp [Outcome.bind_eq_ok_iff]

@[simp] theorem checkExpr_addressOf {operand : Expr} :
    checkExpr context visible (.addressOf operand) = checkExpr context visible operand := by
  simp

/-- Several expressions pass exactly if each of them does. -/
theorem checkExprs_iff {args : List Expr} :
    checkExprs context visible args = .ok () ↔
      ∀ arg ∈ args, checkExpr context visible arg = .ok () := by
  induction args with
  | nil => simp [checkExprs]
  | cons arg args inductionHypothesis =>
    simp [checkExprs, Outcome.bind_eq_ok_iff, Outcome.exists_unit, inductionHypothesis]

/-- A value that is made from parts passes exactly if the parts do. -/
theorem checkExpr_construct_iff {type : TypeId} {args : List Expr} :
    checkExpr context visible (.construct type args) = .ok () ↔
      ∀ arg ∈ args, checkExpr context visible arg = .ok () := by
  rw [checkExpr, checkExprs_iff]

/-- A function may be called with so many arguments. -/
def Callable (context : Context) (callee : FunctionId) (count : Nat) : Prop :=
  callee ∈ context.functions ∧ ∃ function,
    context.tables.functions[callee.index]? = some function ∧ function.params.length = count

/-- A call passes exactly if its arguments do and the function may be called with so many of
them. -/
theorem checkExpr_call_iff {callee : FunctionId} {args : List Expr} :
    checkExpr context visible (.call callee args) = .ok () ↔
      (∀ arg ∈ args, checkExpr context visible arg = .ok ()) ∧
        Callable context callee args.length := by
  simp only [checkExpr, Outcome.bind_eq_ok_iff, Outcome.exists_unit, checkExprs_iff, obey_eq_ok_iff,
    List.contains_iff_mem, Tables.functionAt_eq_ok_iff, decide_eq_true_eq, Callable]

/-- An expression that may be absent passes exactly if it does where it is there. -/
theorem checkOption_iff {value : Option Expr} :
    checkOption context visible value = .ok () ↔
      ∀ expr ∈ value, checkExpr context visible expr = .ok () := by
  cases value <;> simp [checkOption]

end Expressions

/-! ## Statements -/

/-- The variables that are visible after a statement. -/
def opens (stmt : Stmt) (visible : List VariableId) : List VariableId :=
  (Prune.declared? stmt).toList ++ visible

/-- The variables that are visible after several statements. -/
def opensAll (stmts : List Stmt) (visible : List VariableId) : List VariableId :=
  stmts.foldl (fun visible stmt => opens stmt visible) visible

@[simp] theorem opens_declare (id : VariableId) (initial : Option Expr) :
    opens (.declare id initial) visible = id :: visible := rfl

@[simp] theorem opensAll_nil : opensAll [] visible = visible := rfl

@[simp] theorem opensAll_cons (stmt : Stmt) (stmts : List Stmt) :
    opensAll (stmt :: stmts) visible = opensAll stmts (opens stmt visible) := rfl

/-- The rule that a statement keeps. -/
def Keeps (context : Context) (visible : List VariableId) : Stmt → Prop
  | .declare id initial => (∀ value ∈ initial, checkExpr context visible value = .ok ()) ∧
      ∃ entry, Declarable context.tables .local id entry
  | .eval value => checkExpr context visible value = .ok ()
  | .assign target value => checkExpr context visible target = .ok () ∧
      checkExpr context visible value = .ok ()
  | .ifThen condition yes => checkExpr context visible condition = .ok () ∧
      checkStmts context yes visible = .ok ()
  | .ifElse condition yes no => checkExpr context visible condition = .ok () ∧
      checkStmts context yes visible = .ok () ∧ checkStmts context no visible = .ok ()
  | .loop condition body => checkExpr context visible condition = .ok () ∧
      checkStmts context body visible = .ok ()
  | .block body => checkStmts context body visible = .ok ()
  | .ret value => (∃ owner, context.tables.functions[context.owner.index]? = some owner ∧
        (owner.returnType = .void ↔ value = none)) ∧
      ∀ result ∈ value, checkExpr context visible result = .ok ()
  | .brk => True
  | .cont => True
  | .discard => True

/-- A statement passes exactly if it keeps its rule, and then it opens what it declares. -/
theorem checkStmt_eq_ok_iff {stmt : Stmt} :
    checkStmt context stmt visible = .ok next ↔
      Keeps context visible stmt ∧ opens stmt visible = next := by
  cases stmt with
  | declare id initial =>
    simp only [checkStmt, Outcome.bind_eq_ok_iff, Outcome.exists_unit, checkOption_iff,
      checkVariable_eq_ok_iff, Outcome.pure_eq_ok, Except.ok.injEq, Keeps, opens_declare]
    constructor
    · rintro ⟨initialOk, declarable, same⟩
      exact ⟨⟨initialOk, declarable⟩, same⟩
    · rintro ⟨⟨initialOk, declarable⟩, same⟩
      exact ⟨initialOk, declarable, same⟩
  | ret value =>
    have matches_iff (type : TypeId) :
        ((type == .void) == value.isNone) = true ↔ (type = .void ↔ value = none) := by
      rw [beq_iff_eq, Bool.eq_iff_iff, beq_iff_eq, Option.isNone_iff_eq_none]
    simp only [checkStmt, Outcome.bind_eq_ok_iff, Outcome.exists_unit, Tables.functionAt_eq_ok_iff,
      obey_eq_ok_iff, matches_iff, checkOption_iff, Outcome.pure_eq_ok, Except.ok.injEq, Keeps]
    constructor
    · rintro ⟨owner, known, fits, valueOk, same⟩
      exact ⟨⟨⟨owner, known, fits⟩, valueOk⟩, same⟩
    · rintro ⟨⟨⟨owner, known, fits⟩, valueOk⟩, same⟩
      exact ⟨owner, known, fits, valueOk, same⟩
  | eval value =>
    simp [checkStmt, Outcome.bind_eq_ok_iff, Outcome.exists_unit, Keeps, opens, Prune.declared?]
  | assign | ifThen | loop | block =>
    simp [checkStmt, Outcome.bind_eq_ok_iff, Outcome.exists_unit, Keeps, opens, Prune.declared?,
      and_assoc]
  | ifElse =>
    simp [checkStmt, Outcome.bind_eq_ok_iff, Outcome.exists_unit, Keeps, opens, Prune.declared?,
      and_assoc]
  | brk | cont | discard => simp [checkStmt, Keeps, opens, Prune.declared?]

@[simp] theorem checkStmts_nil : checkStmts context [] visible = .ok () := by
  simp [checkStmts]

/-- Statements pass exactly if the first one keeps its rule and the others pass with what it
declares. -/
theorem checkStmts_cons_iff {stmt : Stmt} {stmts : List Stmt} :
    checkStmts context (stmt :: stmts) visible = .ok () ↔
      Keeps context visible stmt ∧ checkStmts context stmts (opens stmt visible) = .ok () := by
  simp only [checkStmts, Outcome.bind_eq_ok_iff, checkStmt_eq_ok_iff]
  constructor
  · rintro ⟨next, ⟨keeps, rfl⟩, rest⟩
    exact ⟨keeps, rest⟩
  · rintro ⟨keeps, rest⟩
    exact ⟨_, ⟨keeps, rfl⟩, rest⟩

/-- So two lists of statements pass exactly if the second one does after the first. -/
theorem checkStmts_append_iff {first second : List Stmt} :
    checkStmts context (first ++ second) visible = .ok () ↔
      checkStmts context first visible = .ok () ∧
        checkStmts context second (opensAll first visible) = .ok () := by
  induction first generalizing visible with
  | nil => simp
  | cons stmt first inductionHypothesis =>
    simp [checkStmts_cons_iff, inductionHypothesis, and_assoc]

/-- Statements that declare nothing are checked one by one. -/
theorem checkStmts_of_forall {stmts : List Stmt}
    (plain : ∀ stmt ∈ stmts, Prune.declared? stmt = none ∧ Keeps context visible stmt) :
    checkStmts context stmts visible = .ok () ∧ opensAll stmts visible = visible := by
  induction stmts with
  | nil => exact ⟨checkStmts_nil, rfl⟩
  | cons stmt stmts inductionHypothesis =>
    obtain ⟨⟨silent, keeps⟩, rest⟩ := List.forall_mem_cons.mp plain
    have same : opens stmt visible = visible := by simp [opens, silent]
    rw [checkStmts_cons_iff, opensAll_cons, same]
    obtain ⟨checked, opened⟩ := inductionHypothesis rest
    exact ⟨⟨keeps, checked⟩, opened⟩

/-! ## Definitions -/

/-- What is known while the body of a function of a program is checked. -/
def contextOf (program : Program) (owner : FunctionId) : Context :=
  ⟨program.tables, program.globalVariables, program.declaredFunctions, owner⟩

/-- A definition passes exactly if its function is known, its parameters are declared as they should
be, and its body passes with them visible. -/
theorem checkDefinition_eq_ok_iff {program : Program} {function : FunctionId} {body : Block} :
    checkDefinition program function body = .ok () ↔
      ∃ entry, program.tables.functions[function.index]? = some entry ∧
        (∀ param ∈ entry.params, ∃ declared,
          Declarable program.tables .parameter param.variableId declared) ∧
        checkStmts (contextOf program function) body (entry.params.map Param.variableId) =
          .ok () := by
  simp only [checkDefinition, Outcome.bind_eq_ok_iff, Outcome.exists_unit, Tables.functionAt_eq_ok_iff,
    Outcome.forM_eq_ok_iff, checkVariable_eq_ok_iff, List.forall_mem_map, contextOf]

end Validity

end ShaderPipeline
