import ShaderPipeline.Proofs.Validity.Rules
import ShaderPipeline.Proofs.Validity.Typing

/-!
# Validity under a substitution

A substitution that puts valid expressions of the right type in the place of
variables and calls keeps every body valid. A body may be moved to a place where
more is visible.
-/

namespace ShaderPipeline

namespace Validity

variable {old new : Context} {change : Substitution} {anchors visible wider : List VariableId}
  {names : VariableId → Prop} {callees : FunctionId → Prop} {swaps : Prop}

/-- A substitution puts valid expressions in the place of certain variables and calls, wherever the
anchors are visible. -/
structure Moves (swaps : Prop) (old new : Context) (change : Substitution) (anchors : List VariableId)
    (names : VariableId → Prop) (callees : FunctionId → Prop) : Prop where
  carries : Tables.Carries swaps old.tables new.tables change names callees
  symbols : ∀ {id : VariableId} {visible : List VariableId}, names id → anchors ⊆ visible →
    checkExpr old visible (.var id) = .ok () →
      checkExpr new visible (change.symbol id) = .ok ()
  calls : ∀ {callee : FunctionId} {args : List Expr} {visible : List VariableId},
    callees callee → anchors ⊆ visible →
    (∀ arg ∈ args, checkExpr new visible arg = .ok ()) → Callable old callee args.length →
      checkExpr new visible (change.call callee args) = .ok ()

/-- What may be mentioned somewhere may be mentioned where more is visible. -/
theorem checkExpr_var_mono {id : VariableId} (sees : id ∈ visible → id ∈ wider)
    (checked : checkExpr old visible (.var id) = .ok ()) :
    checkExpr old wider (.var id) = .ok () := by
  obtain ⟨inScope, alive⟩ := checkExpr_var_iff.mp checked
  exact checkExpr_var_iff.mpr ⟨inScope.imp_right sees, alive⟩

/-- An expression stays valid where the variables that it may name are visible. -/
theorem Moves.checkExpr (moves : Moves swaps old new change anchors names callees)
    (sees : ∀ id, names id → id ∈ visible → id ∈ wider) (anchored : anchors ⊆ wider) {expr : Expr}
    (allowed : expr.Every (old.tables.Allows swaps names callees))
    (checked : checkExpr old visible expr = .ok ()) :
    Validity.checkExpr new wider (expr.subst change) = .ok () := by
  induction expr with
  | const value => exact checkExpr_const value
  | var id =>
    have named := Expr.every_var.mp allowed
    exact moves.symbols named anchored (checkExpr_var_mono (sees id named) checked)
  | field base position inBase =>
    have allowedBase := (Expr.every_field.mp allowed).2
    obtain ⟨baseOk, type, name, fields, typed, known, inside⟩ := checkExpr_field_iff.mp checked
    obtain ⟨result, resultTyped, stands⟩ := moves.carries.typeOf allowedBase typed
    obtain rfl := stands.struct known
    exact checkExpr_field_iff.mpr ⟨inBase allowedBase baseOk, result, name, fields, resultTyped,
      moves.carries.stay known, inside⟩
  | index base position inBase inPosition =>
    obtain ⟨-, allowedBase, allowedPosition⟩ := Expr.every_index.mp allowed
    obtain ⟨baseOk, positionOk, type, entry, element, typed, known, isElement⟩ :=
      checkExpr_index_iff.mp checked
    obtain ⟨result, resultTyped, stands⟩ := moves.carries.typeOf allowedBase typed
    obtain ⟨otherEntry, part, otherKnown, isPart, -⟩ :=
      stands.element moves.carries.stay known isElement
    exact checkExpr_index_iff.mpr ⟨inBase allowedBase baseOk, inPosition allowedPosition positionOk,
      result, otherEntry, part, resultTyped, otherKnown, isPart⟩
  | unary op operand inOperand =>
    rw [checkExpr_unary] at checked
    exact checkExpr_unary.trans (inOperand (Expr.every_unary.mp allowed).2 checked)
  | binary op left right inLeft inRight =>
    obtain ⟨-, allowedLeft, allowedRight⟩ := Expr.every_binary.mp allowed
    obtain ⟨leftOk, rightOk⟩ := checkExpr_binary_iff.mp checked
    exact checkExpr_binary_iff.mpr ⟨inLeft allowedLeft leftOk, inRight allowedRight rightOk⟩
  | construct type args inArgs =>
    have allowedArgs := (Expr.every_construct.mp allowed).2
    have argsOk := checkExpr_construct_iff.mp checked
    rw [Expr.subst, Expr.substAll_eq_map, checkExpr_construct_iff, List.forall_mem_map]
    exact fun arg member => inArgs arg member (allowedArgs arg member) (argsOk arg member)
  | call callee args inArgs =>
    obtain ⟨allowedHere, allowedArgs⟩ := Expr.every_call.mp allowed
    obtain ⟨argsOk, callable⟩ := checkExpr_call_iff.mp checked
    rw [Expr.subst, Expr.substAll_eq_map]
    refine moves.calls allowedHere anchored (List.forall_mem_map.mpr fun arg member => ?_)
      (by simpa using callable)
    exact inArgs arg member (allowedArgs arg member) (argsOk arg member)
  | sample sampler coordinates inSampler inCoordinates =>
    obtain ⟨-, allowedSampler, allowedCoordinates⟩ := Expr.every_sample.mp allowed
    obtain ⟨samplerOk, coordinatesOk⟩ := checkExpr_sample_iff.mp checked
    exact checkExpr_sample_iff.mpr
      ⟨inSampler allowedSampler samplerOk, inCoordinates allowedCoordinates coordinatesOk⟩
  | addressOf operand inOperand =>
    rw [checkExpr_addressOf] at checked
    exact checkExpr_addressOf.trans (inOperand (Expr.every_addressOf.mp allowed).2 checked)

/-- A substitution leaves alone what a statement declares. -/
theorem opens_subst (stmt : Stmt) (change : Substitution) (visible : List VariableId) :
    opens (stmt.subst change) visible = opens stmt visible := by
  cases stmt <;> rfl

/-- A statement makes more visible where more is. -/
theorem opens_mono (stmt : Stmt) (sees : visible ⊆ wider) : opens stmt visible ⊆ opens stmt wider :=
  List.append_subset.mpr
    ⟨List.subset_append_left _ _, List.Subset.trans sees (List.subset_append_right _ _)⟩

/-- What was visible before a statement still is after it. -/
theorem subset_opens (stmt : Stmt) : visible ⊆ opens stmt visible :=
  List.subset_append_right _ _

/-- Statements that a substitution moves from one context to another. -/
def Carried (old new : Context) (change : Substitution) (anchors : List VariableId)
    (rule : Expr → Prop) (stmt : Stmt) : Prop :=
  ∀ visible wider : List VariableId, (∀ root ∈ stmt.roots, root.Every rule) → visible ⊆ wider →
    anchors ⊆ wider → Keeps old visible stmt → Keeps new wider (stmt.subst change)

/-- A block is moved with its statements, each of which may open a variable for the next. -/
theorem checkStmts_of_each {rule : Expr → Prop} {stmts : List Stmt}
    (each : ∀ stmt ∈ stmts, Carried old new change anchors rule stmt)
    (allowed : Block.Every rule stmts) (sees : visible ⊆ wider) (anchored : anchors ⊆ wider)
    (checked : checkStmts old stmts visible = .ok ()) :
    checkStmts new (Stmt.substAll change stmts) wider = .ok () := by
  induction stmts generalizing visible wider with
  | nil => exact checkStmts_nil
  | cons stmt stmts inductionHypothesis =>
    rw [List.forall_mem_cons] at each
    obtain ⟨allowedHere, allowedRest⟩ := Block.every_cons.mp allowed
    obtain ⟨here, rest⟩ := checkStmts_cons_iff.mp checked
    refine checkStmts_cons_iff.mpr ⟨each.1 visible wider allowedHere sees anchored here, ?_⟩
    rw [opens_subst]
    exact inductionHypothesis each.2 allowedRest (opens_mono stmt sees)
      (List.Subset.trans anchored (subset_opens stmt)) rest

/-- A substitution keeps a statement valid, if local variables stay what they are and a value is
returned just in case one was. -/
theorem Moves.stmt (moves : Moves swaps old new change anchors names callees)
    (locals : ∀ {id : VariableId} {entry : Variable}, Declarable old.tables .local id entry →
      Declarable new.tables .local id entry)
    (returns : ∀ {owner : Function}, old.tables.functions[old.owner.index]? = some owner →
      ∃ other, new.tables.functions[new.owner.index]? = some other ∧
        (other.returnType = .void ↔ owner.returnType = .void)) (stmt : Stmt) :
    Carried old new change anchors (old.tables.Allows swaps names callees) stmt := by
  induction stmt with
  | declare id initial =>
    rintro visible wider allowed sees anchored ⟨initialOk, entry, declarable⟩
    refine ⟨fun value member => ?_, entry, locals declarable⟩
    obtain ⟨source, own, rfl⟩ := Option.map_eq_some_iff.mp member
    exact moves.checkExpr (fun _ _ => @sees _) anchored (allowed source (by simp [own]))
      (initialOk source own)
  | eval value =>
    intro visible wider allowed sees anchored checked
    exact moves.checkExpr (fun _ _ => @sees _) anchored (allowed value (by simp)) checked
  | assign target value =>
    rintro visible wider allowed sees anchored ⟨targetOk, valueOk⟩
    exact ⟨moves.checkExpr (fun _ _ => @sees _) anchored (allowed target (by simp)) targetOk,
      moves.checkExpr (fun _ _ => @sees _) anchored (allowed value (by simp)) valueOk⟩
  | ifThen condition yes inYes =>
    rintro visible wider allowed sees anchored ⟨conditionOk, yesOk⟩
    exact ⟨moves.checkExpr (fun _ _ => @sees _) anchored (allowed condition (by simp)) conditionOk,
      checkStmts_of_each inYes (fun root member => allowed root (by simp [member])) sees anchored yesOk⟩
  | ifElse condition yes no inYes inNo =>
    rintro visible wider allowed sees anchored ⟨conditionOk, yesOk, noOk⟩
    exact ⟨moves.checkExpr (fun _ _ => @sees _) anchored (allowed condition (by simp)) conditionOk,
      checkStmts_of_each inYes (fun root member => allowed root (by simp [member])) sees anchored yesOk,
      checkStmts_of_each inNo (fun root member => allowed root (by simp [member])) sees anchored noOk⟩
  | loop condition body inBody =>
    rintro visible wider allowed sees anchored ⟨conditionOk, bodyOk⟩
    exact ⟨moves.checkExpr (fun _ _ => @sees _) anchored (allowed condition (by simp)) conditionOk,
      checkStmts_of_each inBody (fun root member => allowed root (by simp [member])) sees anchored
        bodyOk⟩
  | block body inBody =>
    intro visible wider allowed sees anchored bodyOk
    exact checkStmts_of_each inBody (fun root member => allowed root (by simpa using member)) sees
      anchored bodyOk
  | ret value =>
    rintro visible wider allowed sees anchored ⟨⟨owner, known, fits⟩, valueOk⟩
    obtain ⟨other, otherKnown, sameKind⟩ := returns known
    refine ⟨⟨other, otherKnown, sameKind.trans (fits.trans (by simp))⟩, fun result member => ?_⟩
    obtain ⟨source, own, rfl⟩ := Option.map_eq_some_iff.mp member
    exact moves.checkExpr (fun _ _ => @sees _) anchored (allowed source (by simp [own]))
      (valueOk source own)
  | brk | cont | discard => exact fun _ _ _ _ _ _ => trivial

/-- So it keeps a block valid. -/
theorem Moves.checkStmts (moves : Moves swaps old new change anchors names callees)
    (locals : ∀ {id : VariableId} {entry : Variable}, Declarable old.tables .local id entry →
      Declarable new.tables .local id entry)
    (returns : ∀ {owner : Function}, old.tables.functions[old.owner.index]? = some owner →
      ∃ other, new.tables.functions[new.owner.index]? = some other ∧
        (other.returnType = .void ↔ owner.returnType = .void))
    {body : Block} (allowed : Block.Every (old.tables.Allows swaps names callees) body)
    (sees : visible ⊆ wider) (anchored : anchors ⊆ wider)
    (checked : checkStmts old body visible = .ok ()) :
    Validity.checkStmts new (Block.subst body change) wider = .ok () :=
  checkStmts_of_each (fun stmt _ => moves.stmt locals returns stmt) allowed sees anchored checked

end Validity

end ShaderPipeline
