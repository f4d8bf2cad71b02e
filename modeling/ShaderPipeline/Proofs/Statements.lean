import ShaderPipeline.Proofs.Pruning
import ShaderPipeline.Proofs.Returns
import ShaderPipeline.Proofs.Validity.Rules

/-!
# Statements and the blocks in them

A statement has expressions of its own and blocks of statements in it. What a
substitution, a replacement of returns or pruning does to a statement is said here
once for all kinds of statements, in terms of these two. Facts about all
statements of a body, at any depth, follow by one induction.
-/

namespace ShaderPipeline

namespace Stmt

/-- The blocks that stand directly in a statement. -/
def inner : Stmt → List Block
  | ifThen _ yes => [yes]
  | ifElse _ yes no => [yes, no]
  | loop _ body => [body]
  | block body => [body]
  | _ => []

/-- Induction over a statement, with a hypothesis for every statement of the blocks in it. -/
theorem inner_induction {motive : Stmt → Prop}
    (step : ∀ stmt, (∀ block ∈ stmt.inner, ∀ sub ∈ block, motive sub) → motive stmt) (stmt : Stmt) :
    motive stmt := by
  induction stmt with
  | ifThen condition yes inYes => exact step _ (by simpa [inner] using inYes)
  | ifElse condition yes no inYes inNo => exact step _ (by simpa [inner] using ⟨inYes, inNo⟩)
  | loop condition body inBody => exact step _ (by simpa [inner] using inBody)
  | block body inBody => exact step _ (by simpa [inner] using inBody)
  | declare | eval | assign | ret | brk | cont | discard => exact step _ (by simp [inner])

/-- The parts of a statement are itself and those of the blocks in it. -/
theorem mem_nodes_iff {stmt node : Stmt} :
    node ∈ stmt.nodes ↔ node = stmt ∨ ∃ block ∈ stmt.inner, node ∈ Block.stmts block := by
  cases stmt <;> simp [nodes, inner, Block.stmts]

variable {change : Substitution} {epilogue : Block}

@[simp] theorem inner_subst (stmt : Stmt) :
    (stmt.subst change).inner = stmt.inner.map fun block => Block.subst block change := by
  cases stmt <;> rfl

@[simp] theorem ownExprs_subst (stmt : Stmt) :
    (stmt.subst change).ownExprs = stmt.ownExprs.map (Expr.subst change) := by
  cases stmt with
  | declare id initial => cases initial <;> rfl
  | ret value => cases value <;> rfl
  | _ => rfl

/-- Where returns are replaced, the nested blocks have theirs replaced. -/
theorem inner_leaving {stmt : Stmt} (other : stmt ≠ .ret none) :
    (stmt.leaving epilogue).inner = stmt.inner.map (List.map (leaving epilogue)) := by
  cases stmt with
  | ret value =>
    cases value with
    | none => exact absurd rfl other
    | some value => rfl
  | _ => simp [leaving, inner, leavingAll_eq_map]

/-- Replacing returns changes no expression. -/
theorem ownExprs_leaving {stmt : Stmt} (other : stmt ≠ .ret none) :
    (stmt.leaving epilogue).ownExprs = stmt.ownExprs := by
  cases stmt with
  | ret value =>
    cases value with
    | none => exact absurd rfl other
    | some value => rfl
  | _ => rfl

end Stmt

namespace Block

variable {stmt node : Stmt} {block first second : Block}

@[simp] theorem mem_stmts_cons :
    node ∈ Block.stmts (stmt :: block) ↔ node ∈ stmt.nodes ∨ node ∈ block.stmts := by
  simp [stmts, Stmt.nodesOfAll]

@[simp] theorem mem_stmts_append :
    node ∈ Block.stmts (first ++ second) ↔ node ∈ first.stmts ∨ node ∈ second.stmts := by
  simp [stmts, Stmt.nodesOfAll_eq_flatMap]

/-- A statement stands in a block exactly if it is part of one of its statements. -/
theorem mem_stmts_iff : node ∈ block.stmts ↔ ∃ stmt ∈ block, node ∈ stmt.nodes :=
  Stmt.mem_nodesOfAll

/-- The statements of a block are among those at any depth. -/
theorem mem_stmts_of_mem (member : stmt ∈ block) : stmt ∈ block.stmts :=
  mem_stmts_iff.mpr ⟨stmt, member, stmt.self_mem_nodes⟩

end Block

/-! ## Rules about statements -/

/-- All statements of a block, at any depth, keep a rule. -/
def Block.Each (rule : Stmt → Prop) (block : Block) : Prop := ∀ stmt ∈ block.stmts, rule stmt

namespace Block

variable {rule other : Stmt → Prop} {stmt : Stmt} {block first second : Block}

@[simp] theorem each_nil : Each rule [] := by simp [Each, stmts, Stmt.nodesOfAll]

/-- A rule holds at any depth if it does for the first statement, for what is nested in it, and for
the others. -/
theorem each_cons : Each rule (stmt :: block) ↔
    (rule stmt ∧ ∀ part ∈ stmt.inner, Each rule part) ∧ Each rule block := by
  simp only [Each, mem_stmts_cons, Stmt.mem_nodes_iff, or_imp, forall_and, forall_eq]
  refine and_congr_left' (and_congr_right' ⟨fun each part own node inside =>
    each node ⟨part, own, inside⟩, fun each node ⟨part, own, inside⟩ => each part own node inside⟩)

/-- A rule holds at any depth of two blocks exactly if it does in each of them. -/
theorem each_append : Each rule (first ++ second) ↔ Each rule first ∧ Each rule second := by
  simp [Each, or_imp, forall_and]

/-- A rule holds at any depth if it does for all statements and for what is nested in them. -/
theorem each_iff : Each rule block ↔
    ∀ stmt ∈ block, rule stmt ∧ ∀ part ∈ stmt.inner, Each rule part := by
  induction block with
  | nil => simp
  | cons stmt block inductionHypothesis => simp [each_cons, inductionHypothesis]

/-- Without blocks in its statements, a block has no others. -/
theorem each_of_flat (flat : ∀ stmt ∈ block, stmt.inner = [] ∧ rule stmt) : Each rule block :=
  each_iff.mpr fun stmt member => ⟨(flat stmt member).2, by simp [(flat stmt member).1]⟩

/-- If a rule passes from the statements of a block to those of a list that stands for it, and so
in all blocks of the statements, it passes from block to block. -/
theorem Each.of_map {change : Stmt → Stmt} (each : Each rule block)
    (here : ∀ stmt, rule stmt → (∀ part ∈ stmt.inner, Each other (part.map change)) →
      other (change stmt) ∧ ∀ part ∈ (change stmt).inner, Each other part) :
    Each other (block.map change) := by
  have single : ∀ stmt, rule stmt → (∀ part ∈ stmt.inner, Each rule part) →
      other (change stmt) ∧ ∀ part ∈ (change stmt).inner, Each other part := by
    intro stmt
    induction stmt using Stmt.inner_induction with
    | step stmt inside =>
      intro own parts
      refine here stmt own fun part among => each_iff.mpr ?_
      rw [List.forall_mem_map]
      intro sub member
      obtain ⟨subOwn, subParts⟩ := each_iff.mp (parts part among) sub member
      exact inside part among sub member subOwn subParts
  rw [each_iff] at each ⊢
  rw [List.forall_mem_map]
  exact fun stmt member => single stmt (each stmt member).1 (each stmt member).2

/-- A rule that a substitution carries over holds of the substituted block. -/
theorem Each.subst {change : Substitution} (each : Each rule block)
    (carries : ∀ stmt, rule stmt → other (stmt.subst change)) :
    Each other (Block.subst block change) := by
  rw [Block.subst, Stmt.substAll_eq_map]
  refine each.of_map fun stmt own parts => ⟨carries stmt own, ?_⟩
  simpa [Block.subst, Stmt.substAll_eq_map] using parts

/-- A statement of a block is substituted where it stands. -/
theorem subst_mem_stmts {change : Substitution} {source : Stmt} (member : source ∈ block.stmts) :
    source.subst change ∈ Block.stmts (Block.subst block change) := by
  have blocks {stmts : Block} (each : ∀ stmt ∈ stmts, source ∈ stmt.nodes →
      source.subst change ∈ (stmt.subst change).nodes) (inside : source ∈ stmts.stmts) :
      source.subst change ∈ Block.stmts (Block.subst stmts change) := by
    obtain ⟨stmt, isStmt, among⟩ := mem_stmts_iff.mp inside
    rw [Block.subst, Stmt.substAll_eq_map]
    exact mem_stmts_iff.mpr ⟨_, List.mem_map_of_mem isStmt, each stmt isStmt among⟩
  refine blocks (fun stmt isStmt => ?_) member
  clear isStmt
  induction stmt using Stmt.inner_induction with
  | step stmt inside =>
    rw [Stmt.mem_nodes_iff, Stmt.mem_nodes_iff]
    rintro (rfl | ⟨part, own, among⟩)
    · exact .inl rfl
    · refine .inr ⟨Block.subst part change, ?_, blocks (inside part own) among⟩
      rw [Stmt.inner_subst]
      exact List.mem_map_of_mem own

/-- What holds of every expression of a block holds of those of each statement. -/
theorem each_of_every {rule : Expr → Prop} (every : Block.Every rule block) :
    block.Each fun stmt => ∀ root ∈ stmt.ownExprs, root.Every rule :=
  fun stmt inside root own => every root (List.mem_flatMap.mpr ⟨stmt, inside, own⟩)

end Block

/-- Every statement of a valid block, at any depth, keeps its rule. -/
theorem Validity.checkStmts_each {context : Context} {visible : List VariableId} {body : Block}
    (checked : checkStmts context body visible = .ok ()) :
    body.Each fun stmt => ∃ visible, Keeps context visible stmt := by
  have blocks {stmts : Block} {visible : List VariableId}
      (each : ∀ stmt ∈ stmts, ∀ visible, Keeps context visible stmt →
        ∀ part ∈ stmt.inner, part.Each fun stmt => ∃ visible, Keeps context visible stmt)
      (allOk : checkStmts context stmts visible = .ok ()) :
      stmts.Each fun stmt => ∃ visible, Keeps context visible stmt := by
    induction stmts generalizing visible with
    | nil => exact Block.each_nil
    | cons stmt stmts inStmts =>
      rw [List.forall_mem_cons] at each
      obtain ⟨here, rest⟩ := checkStmts_cons_iff.mp allOk
      exact Block.each_cons.mpr ⟨⟨⟨visible, here⟩, each.1 visible here⟩, inStmts each.2 rest⟩
  refine blocks (fun stmt isStmt => ?_) checked
  clear isStmt checked
  induction stmt using Stmt.inner_induction with
  | step stmt inside =>
    intro visible keeps part own
    cases stmt with
    | ifThen condition yes =>
      obtain rfl := List.mem_singleton.mp own
      exact blocks (inside _ own) keeps.2
    | ifElse condition yes no =>
      rcases List.mem_pair.mp own with rfl | rfl
      · exact blocks (inside _ own) keeps.2.1
      · exact blocks (inside _ own) keeps.2.2
    | loop condition body =>
      obtain rfl := List.mem_singleton.mp own
      exact blocks (inside _ own) keeps.2
    | block body =>
      obtain rfl := List.mem_singleton.mp own
      exact blocks (inside _ own) keeps
    | declare | eval | assign | ret | brk | cont | discard => simp [Stmt.inner] at own

/-! ## Pruned blocks -/

namespace Prune

variable {refs marks : List VariableId} {stmt trimmedStmt : Stmt} {rest after first second : Block}

/-- What is left of a statement that stays. -/
structure TrimsStmt (refs marks : List VariableId) (stmt trimmed : Stmt) : Prop where
  ownExprs : trimmed.ownExprs = stmt.ownExprs
  inner : List.Forall₂ (Trims refs marks) stmt.inner trimmed.inner
  simple : stmt.inner = [] → trimmed = stmt
  blocks : ∀ body, stmt = .block body → ∃ left, trimmed = .block left

/-- The first statement of a block goes or stays. -/
theorem Trims.cons_inv (trims : Trims refs marks (stmt :: rest) after) :
    (Idle refs stmt ∧ Trims refs marks rest after) ∨
      ∃ trimmed tail, after = trimmed :: tail ∧ TrimsStmt refs marks stmt trimmed ∧
        Trims refs marks rest tail := by
  cases trims with
  | drop idle tail => exact .inl ⟨idle, tail⟩
  | keep lasts tail =>
    refine .inr ⟨stmt, _, rfl, ⟨rfl, ?_, fun _ => rfl, fun body same => ⟨body, same⟩⟩, tail⟩
    cases stmt with
    | ifThen | ifElse | loop | block => exact lasts.elim
    | declare | eval | assign | ret | brk | cont | discard => exact .nil
  | ifThen condition inner tail =>
    exact .inr ⟨_, _, rfl, ⟨rfl, .cons inner .nil, by simp [Stmt.inner], by simp⟩, tail⟩
  | ifElse condition inYes inNo tail =>
    exact .inr ⟨_, _, rfl, ⟨rfl, .cons inYes (.cons inNo .nil), by simp [Stmt.inner], by simp⟩, tail⟩
  | loop condition inner tail =>
    exact .inr ⟨_, _, rfl, ⟨rfl, .cons inner .nil, by simp [Stmt.inner], by simp⟩, tail⟩
  | block inner tail =>
    exact .inr ⟨_, _, rfl, ⟨rfl, .cons inner .nil, by simp [Stmt.inner], fun _ _ => ⟨_, rfl⟩⟩, tail⟩

/-- Two blocks in a row are trimmed one after the other. -/
theorem Trims.append_inv (trims : Trims refs marks (first ++ second) after) :
    ∃ front back, after = front ++ back ∧ Trims refs marks first front ∧
      Trims refs marks second back := by
  induction first generalizing after with
  | nil => exact ⟨[], after, rfl, .nil, trims⟩
  | cons stmt first inductionHypothesis =>
    cases trims with
    | drop idle tail =>
      obtain ⟨front, back, rfl, trimsFirst, trimsSecond⟩ := inductionHypothesis tail
      exact ⟨front, back, rfl, .drop idle trimsFirst, trimsSecond⟩
    | keep lasts tail =>
      obtain ⟨front, back, rfl, trimsFirst, trimsSecond⟩ := inductionHypothesis tail
      exact ⟨_ :: front, back, rfl, .keep lasts trimsFirst, trimsSecond⟩
    | ifThen condition inner tail =>
      obtain ⟨front, back, rfl, trimsFirst, trimsSecond⟩ := inductionHypothesis tail
      exact ⟨_ :: front, back, rfl, .ifThen condition inner trimsFirst, trimsSecond⟩
    | ifElse condition inYes inNo tail =>
      obtain ⟨front, back, rfl, trimsFirst, trimsSecond⟩ := inductionHypothesis tail
      exact ⟨_ :: front, back, rfl, .ifElse condition inYes inNo trimsFirst, trimsSecond⟩
    | loop condition inner tail =>
      obtain ⟨front, back, rfl, trimsFirst, trimsSecond⟩ := inductionHypothesis tail
      exact ⟨_ :: front, back, rfl, .loop condition inner trimsFirst, trimsSecond⟩
    | block inner tail =>
      obtain ⟨front, back, rfl, trimsFirst, trimsSecond⟩ := inductionHypothesis tail
      exact ⟨_ :: front, back, rfl, .block inner trimsFirst, trimsSecond⟩

/-- A rule that does not look into blocks holds of what is left of a block. -/
theorem Trims.each {rule : Stmt → Prop} {body trimmed : Block}
    (trims : Trims refs marks body trimmed) (nested : ∀ stmt : Stmt, stmt.inner ≠ [] → rule stmt)
    (each : body.Each rule) : trimmed.Each rule := by
  induction trims with
  | nil => exact each
  | drop _ _ inTail => exact inTail (Block.each_cons.mp each).2
  | keep _ _ inTail =>
    obtain ⟨here, rest⟩ := Block.each_cons.mp each
    exact Block.each_cons.mpr ⟨here, inTail rest⟩
  | ifThen condition _ _ inYes inTail =>
    obtain ⟨⟨-, here⟩, rest⟩ := Block.each_cons.mp each
    simp only [Stmt.inner, List.forall_mem_singleton] at here
    refine Block.each_cons.mpr ⟨⟨nested _ (by simp [Stmt.inner]), ?_⟩, inTail rest⟩
    simpa [Stmt.inner] using inYes here
  | ifElse condition _ _ _ inYes inNo inTail =>
    obtain ⟨⟨-, here⟩, rest⟩ := Block.each_cons.mp each
    simp only [Stmt.inner, List.forall_mem_cons] at here
    refine Block.each_cons.mpr ⟨⟨nested _ (by simp [Stmt.inner]), ?_⟩, inTail rest⟩
    simpa [Stmt.inner] using ⟨inYes here.1, inNo here.2.1⟩
  | loop condition _ _ inBody inTail =>
    obtain ⟨⟨-, here⟩, rest⟩ := Block.each_cons.mp each
    simp only [Stmt.inner, List.forall_mem_singleton] at here
    refine Block.each_cons.mpr ⟨⟨nested _ (by simp [Stmt.inner]), ?_⟩, inTail rest⟩
    simpa [Stmt.inner] using inBody here
  | block _ _ inBody inTail =>
    obtain ⟨⟨-, here⟩, rest⟩ := Block.each_cons.mp each
    simp only [Stmt.inner, List.forall_mem_singleton] at here
    refine Block.each_cons.mpr ⟨⟨nested _ (by simp [Stmt.inner]), ?_⟩, inTail rest⟩
    simpa [Stmt.inner] using inBody here

/-- The declaration of a variable that is referred to stays. -/
theorem Trims.declares {id : VariableId} {initial : Option Expr} {body trimmed : Block}
    (trims : Trims refs marks body trimmed) (isRef : id ∈ refs)
    (declares : .declare id initial ∈ body.stmts) : .declare id initial ∈ trimmed.stmts := by
  induction trims with
  | nil => exact declares
  | @drop stmt _ _ idle _ inTail =>
    rw [Block.mem_stmts_cons, Stmt.mem_nodes_iff] at declares
    rcases declares with (rfl | ⟨part, own, -⟩) | later
    · exact absurd isRef idle.1
    · cases stmt with
      | ifThen | ifElse | loop | block => exact idle.elim
      | _ => simp [Stmt.inner] at own
    · exact inTail later
  | keep _ _ inTail =>
    rw [Block.mem_stmts_cons] at declares ⊢
    exact declares.imp_right inTail
  | ifThen condition _ _ inYes inTail =>
    simp only [Block.mem_stmts_cons, Stmt.mem_nodes_iff, Stmt.inner, List.mem_singleton,
      exists_eq_left, reduceCtorEq, false_or] at declares ⊢
    exact declares.imp inYes inTail
  | ifElse condition _ _ _ inYes inNo inTail =>
    simp only [Block.mem_stmts_cons, Stmt.mem_nodes_iff, Stmt.inner, List.mem_pair,
      exists_eq_or_imp, exists_eq_left, reduceCtorEq, false_or] at declares ⊢
    exact declares.imp (Or.imp inYes inNo) inTail
  | loop condition _ _ inBody inTail =>
    simp only [Block.mem_stmts_cons, Stmt.mem_nodes_iff, Stmt.inner, List.mem_singleton,
      exists_eq_left, reduceCtorEq, false_or] at declares ⊢
    exact declares.imp inBody inTail
  | block _ _ inBody inTail =>
    simp only [Block.mem_stmts_cons, Stmt.mem_nodes_iff, Stmt.inner, List.mem_singleton,
      exists_eq_left, reduceCtorEq, false_or] at declares ⊢
    exact declares.imp inBody inTail

end Prune

end ShaderPipeline
