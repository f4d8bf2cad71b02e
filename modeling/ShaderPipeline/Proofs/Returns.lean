import ShaderPipeline.Proofs.Tree
import ShaderPipeline.Threading.Main

/-!
# Replacing returns

Replacing the bare returns of a block keeps its structure: every statement is
replaced by one statement. Facts about it go by induction over statements.
-/

namespace ShaderPipeline

namespace Stmt

mutual

/-- The statement with every bare return in it, at any depth, replaced by a nested block. -/
def leaving (epilogue : Block) : Stmt → Stmt
  | declare id initial => declare id initial
  | eval value => eval value
  | assign target value => assign target value
  | ifThen condition yes => ifThen condition (leavingAll epilogue yes)
  | ifElse condition yes no => ifElse condition (leavingAll epilogue yes) (leavingAll epilogue no)
  | loop condition body => loop condition (leavingAll epilogue body)
  | block body => block (leavingAll epilogue body)
  | ret none => block epilogue
  | ret (some value) => ret (some value)
  | brk => brk
  | cont => cont
  | discard => discard
termination_by structural stmt => stmt

/-- Several statements, each with its bare returns replaced. -/
def leavingAll (epilogue : Block) : List Stmt → List Stmt
  | [] => []
  | stmt :: stmts => stmt.leaving epilogue :: leavingAll epilogue stmts
termination_by structural stmts => stmts

end

/-- Returns are replaced statement by statement. -/
theorem leavingAll_eq_map (epilogue : Block) (stmts : List Stmt) :
    leavingAll epilogue stmts = stmts.map (leaving epilogue) := by
  induction stmts with
  | nil => rfl
  | cons stmt stmts inductionHypothesis => simp [leavingAll, inductionHypothesis]

/-- Replacing returns goes along with a substitution. -/
theorem subst_leaving (change : Substitution) (epilogue : Block) (stmt : Stmt) :
    (stmt.leaving epilogue).subst change =
      (stmt.subst change).leaving (Block.subst epilogue change) := by
  have nested {stmts : List Stmt}
      (inside : ∀ stmt ∈ stmts, (stmt.leaving epilogue).subst change =
        (stmt.subst change).leaving (Block.subst epilogue change)) :
      substAll change (leavingAll epilogue stmts) =
        leavingAll (Block.subst epilogue change) (substAll change stmts) := by
    simp only [substAll_eq_map, leavingAll_eq_map, List.map_map]
    exact List.map_congr_left inside
  induction stmt with
  | declare id initial => rfl
  | eval value => rfl
  | assign target value => rfl
  | ifThen condition yes inYes => simp [leaving, subst, nested inYes]
  | ifElse condition yes no inYes inNo => simp [leaving, subst, nested inYes, nested inNo]
  | loop condition body inBody => simp [leaving, subst, nested inBody]
  | block body inBody => simp [leaving, subst, nested inBody]
  | ret value => cases value <;> rfl
  | brk => rfl
  | cont => rfl
  | discard => rfl

/-- Replacing returns brings in nothing but what replaces them. -/
theorem every_leaving {rule : Expr → Prop} {epilogue : Block}
    (handed : Block.Every rule epilogue) (stmt : Stmt)
    (every : ∀ root ∈ stmt.roots, root.Every rule) :
    ∀ root ∈ (stmt.leaving epilogue).roots, root.Every rule := by
  have nested {stmts : Block} (each : ∀ stmt ∈ stmts, (∀ root ∈ stmt.roots, root.Every rule) →
      ∀ root ∈ (stmt.leaving epilogue).roots, root.Every rule) (all : Block.Every rule stmts) :
      Block.Every rule (leavingAll epilogue stmts) := by
    intro root member
    rw [leavingAll_eq_map] at member
    obtain ⟨_, inside, own⟩ := Block.mem_roots.mp member
    obtain ⟨stmt, isStmt, rfl⟩ := List.mem_map.mp inside
    exact each stmt isStmt (fun root here => all root (Block.mem_roots.mpr ⟨stmt, isStmt, here⟩))
      root own
  induction stmt with
  | declare | eval | assign | brk | cont | discard => exact every
  | ifThen condition yes inYes =>
    simp only [leaving, roots_ifThen, List.forall_mem_cons] at every ⊢
    exact ⟨every.1, nested inYes every.2⟩
  | ifElse condition yes no inYes inNo =>
    simp only [leaving, roots_ifElse, List.forall_mem_cons, List.forall_mem_append] at every ⊢
    exact ⟨every.1, nested inYes every.2.1, nested inNo every.2.2⟩
  | loop condition body inBody =>
    simp only [leaving, roots_loop, List.forall_mem_cons] at every ⊢
    exact ⟨every.1, nested inBody every.2⟩
  | block body inBody =>
    simp only [leaving, roots_block] at every ⊢
    exact nested inBody every
  | ret value =>
    cases value with
    | none =>
      rw [leaving, roots_block]
      exact handed
    | some value => exact every

end Stmt

/-- Replacing only the bare returns replaces each statement of a block by one. -/
theorem Block.replace_eq_leaving {change : Stmt → List Stmt} {epilogue : Block}
    (returns : change (.ret none) = [.block epilogue])
    (keeps : ∀ stmt, stmt ≠ .ret none → change stmt = [stmt]) (body : Block) :
    body.replace change = body.map (Stmt.leaving epilogue) := by
  let lifted : Stmt → Id (List Stmt) := fun stmt => pure (change stmt)
  have nested {stmts : List Stmt}
      (inside : ∀ stmt ∈ stmts, Id.run (stmt.replaceM lifted) = [stmt.leaving epilogue]) :
      Id.run (Stmt.replaceAllM lifted stmts) = Stmt.leavingAll epilogue stmts := by
    induction stmts with
    | nil => rfl
    | cons stmt stmts inductionHypothesis =>
      rw [List.forall_mem_cons] at inside
      simp [Stmt.replaceAllM, Stmt.leavingAll, inside.1, inductionHypothesis inside.2]
  have single (stmt : Stmt) : Id.run (stmt.replaceM lifted) = [stmt.leaving epilogue] := by
    induction stmt with
    | declare | eval | assign | brk | cont | discard =>
      simp [Stmt.replaceM, Stmt.leaving, lifted, keeps]
    | ifThen condition yes inYes =>
      simp [Stmt.replaceM, Stmt.leaving, lifted, keeps, nested inYes]
    | ifElse condition yes no inYes inNo =>
      simp [Stmt.replaceM, Stmt.leaving, lifted, keeps, nested inYes, nested inNo]
    | loop condition body inBody | block body inBody =>
      simp [Stmt.replaceM, Stmt.leaving, lifted, keeps, nested inBody]
    | ret value =>
      cases value with
      | none => simp [Stmt.replaceM, Stmt.leaving, lifted, returns]
      | some value => simp [Stmt.replaceM, Stmt.leaving, lifted, keeps]
  rw [← Stmt.leavingAll_eq_map]
  exact nested fun stmt _ => single stmt

namespace Plan

/-- Replacing the returns of a block replaces each of its statements. -/
theorem replaceReturns_eq_map (body epilogue : Block) :
    replaceReturns body epilogue = body.map (Stmt.leaving epilogue) :=
  Block.replace_eq_leaving rfl (fun stmt other => by simp) body

/-- Substituting and replacing returns can be done in either order. -/
theorem subst_replaceReturns (body epilogue : Block) (change : Substitution) :
    Block.subst (replaceReturns body epilogue) change =
      replaceReturns (Block.subst body change) (Block.subst epilogue change) := by
  simp only [replaceReturns_eq_map, Block.subst, Stmt.substAll_eq_map, List.map_map]
  exact List.map_congr_left fun stmt _ => by
    simpa [Block.subst, Stmt.substAll_eq_map] using Stmt.subst_leaving change epilogue stmt

/-- A rule for all parts holds after returns are replaced, if it does for what they are replaced
by. -/
theorem every_replaceReturns {rule : Expr → Prop} {body epilogue : Block}
    (every : Block.Every rule body) (leaving : Block.Every rule epilogue) :
    Block.Every rule (replaceReturns body epilogue) := by
  intro root member
  rw [replaceReturns_eq_map] at member
  obtain ⟨_, inside, own⟩ := Block.mem_roots.mp member
  obtain ⟨stmt, isStmt, rfl⟩ := List.mem_map.mp inside
  exact Stmt.every_leaving leaving stmt (fun root here =>
    every root (Block.mem_roots.mpr ⟨stmt, isStmt, here⟩)) root own

end Plan

end ShaderPipeline
