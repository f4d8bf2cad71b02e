import ShaderPipeline.Proofs.Returns
import ShaderPipeline.Proofs.Validity.Moves

/-!
# Validity of replaced returns

A function without a result may return anywhere. If every return is replaced by a
block that hands a result over, the body fits a function with a result.
-/

namespace ShaderPipeline

namespace Validity

variable {context : Context} {visible : List VariableId}

/-- Tables that stay as they are bring in no pointer. -/
theorem quiet_refl (tables : Tables) : tables.Quiet tables := by
  intro type pointer missing found
  simp [missing] at found

/-- Whose body an expression stands in does not matter for it. -/
theorem moves_owner (context : Context) (owner : FunctionId) :
    Moves False context { context with owner } {} [] (fun _ => True) (fun _ => True) where
  carries := {
    stay := fun known => known
    quiet := quiet_refl context.tables
    symbols := fun _ known => ⟨_, Tables.typeOf_var_iff.mpr ⟨_, known, rfl⟩, .same _⟩
    calls := fun _ known => ⟨_, Tables.typeOf_call_iff.mpr ⟨_, known, rfl⟩, .same _⟩ }
  symbols _ _ checked := checkExpr_var_iff.mpr (checkExpr_var_iff.mp checked)
  calls _ _ argsOk callable := checkExpr_call_iff.mpr ⟨argsOk, callable⟩

/-- Whether an expression is valid does not depend on what the function returns. -/
theorem checkExpr_owner (owner : FunctionId) {expr : Expr}
    (checked : checkExpr context visible expr = .ok ()) :
    checkExpr { context with owner } visible expr = .ok () := by
  have moved := (moves_owner context owner).checkExpr (fun _ _ => id)
    (List.nil_subset _) (fun node _ => ?_) checked
  · rwa [Expr.subst_default] at moved
  · cases node <;> simp [Tables.Allows, Expr.Uses]

/-- The body of a function without a result fits one with a result, once its returns are replaced
by what is valid wherever certain variables are visible. -/
theorem checkStmts_leaving {owner : FunctionId} {function : Function} {epilogue body : Block}
    {anchors : List VariableId}
    (known : context.tables.functions[context.owner.index]? = some function)
    (void : function.returnType = .void)
    (leaves : ∀ visible, anchors ⊆ visible →
      checkStmts { context with owner } epilogue visible = .ok ())
    (anchored : anchors ⊆ visible) (checked : checkStmts context body visible = .ok ()) :
    checkStmts { context with owner } (Stmt.leavingAll epilogue body) visible = .ok () := by
  have block {stmts : List Stmt} (each : ∀ stmt ∈ stmts, ∀ visible, anchors ⊆ visible →
      Keeps context visible stmt → Keeps { context with owner } visible (stmt.leaving epilogue)) :
      ∀ {visible}, anchors ⊆ visible → checkStmts context stmts visible = .ok () →
        checkStmts { context with owner } (Stmt.leavingAll epilogue stmts) visible = .ok () := by
    induction stmts with
    | nil => exact fun _ _ => checkStmts_nil
    | cons stmt stmts inductionHypothesis =>
      intro visible anchored checked
      rw [List.forall_mem_cons] at each
      obtain ⟨here, rest⟩ := checkStmts_cons_iff.mp checked
      have same : opens (stmt.leaving epilogue) visible = opens stmt visible := by
        cases stmt with
        | ret value => cases value <;> rfl
        | _ => rfl
      refine checkStmts_cons_iff.mpr ⟨each.1 visible anchored here, ?_⟩
      rw [same]
      exact inductionHypothesis each.2 (List.Subset.trans anchored (subset_opens stmt)) rest
  refine block (fun stmt member => ?_) anchored checked
  clear checked member
  induction stmt with
  | declare id initial =>
    rintro visible - ⟨initialOk, declarable⟩
    exact ⟨fun value member => checkExpr_owner owner (initialOk value member), declarable⟩
  | eval value => exact fun _ _ checked => checkExpr_owner owner checked
  | assign target value =>
    rintro visible - ⟨targetOk, valueOk⟩
    exact ⟨checkExpr_owner owner targetOk, checkExpr_owner owner valueOk⟩
  | ifThen condition yes inYes =>
    rintro visible anchored ⟨conditionOk, yesOk⟩
    exact ⟨checkExpr_owner owner conditionOk, block inYes anchored yesOk⟩
  | ifElse condition yes no inYes inNo =>
    rintro visible anchored ⟨conditionOk, yesOk, noOk⟩
    exact ⟨checkExpr_owner owner conditionOk, block inYes anchored yesOk, block inNo anchored noOk⟩
  | loop condition body inBody =>
    rintro visible anchored ⟨conditionOk, bodyOk⟩
    exact ⟨checkExpr_owner owner conditionOk, block inBody anchored bodyOk⟩
  | block body inBody => exact fun _ anchored bodyOk => block inBody anchored bodyOk
  | ret value =>
    rintro visible anchored ⟨⟨other, otherKnown, fits⟩, -⟩
    obtain rfl : other = function := by simpa [known] using otherKnown.symm
    obtain rfl : value = none := fits.mp void
    exact leaves visible anchored
  | brk | cont | discard => exact fun _ _ _ => trivial

end Validity

end ShaderPipeline
