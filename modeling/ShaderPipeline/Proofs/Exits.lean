import ShaderPipeline.Proofs.Frames
import ShaderPipeline.Proofs.Statements

/-!
# Exits of a body

A body leaves through its returns, at any depth, and at its end. If every return
is the last statement of one and the same ending, and the body ends in a copy of
it as well, then the ending decides what the body hands over. Both facts survive a
substitution that leaves the ending alone, statements that are put in front, and
pruning.
-/

namespace ShaderPipeline

/-! ## Copies of an ending -/

namespace Block

/-- A block made of statements that keep a rule and of copies of an ending; so are the blocks in
it. -/
inductive MadeOf (rule : Stmt → Prop) (ending : Block) : Block → Prop where
  | nil : MadeOf rule ending []
  | step {stmt : Stmt} {rest : Block} (own : rule stmt)
      (inner : ∀ part ∈ stmt.inner, MadeOf rule ending part) (tail : MadeOf rule ending rest) :
      MadeOf rule ending (stmt :: rest)
  | leave {rest : Block} (tail : MadeOf rule ending rest) : MadeOf rule ending (ending ++ rest)

/-- A block, or one at its end, ends in certain statements. -/
inductive EndsIn (ending : Block) : Block → Prop where
  | here (front : Block) : EndsIn ending (front ++ ending)
  | inside (front : Block) {body : Block} (ends : EndsIn ending body) :
      EndsIn ending (front ++ [.block body])

variable {rule other : Stmt → Prop} {ending block first second : Block}

/-- The ending alone is made of itself. -/
theorem MadeOf.once : MadeOf rule ending ending := by
  simpa using @MadeOf.leave rule ending [] .nil

/-- Two blocks that are made of the same are so together. -/
theorem MadeOf.append (isFirst : MadeOf rule ending first) (isSecond : MadeOf rule ending second) :
    MadeOf rule ending (first ++ second) := by
  induction isFirst with
  | nil => exact isSecond
  | step own inner _ _ inTail => exact .step own inner inTail
  | leave _ inTail =>
    rw [List.append_assoc]
    exact .leave inTail

/-- If what stands for a statement is made of the ending whenever the blocks in it are, then so is
what stands for a block. -/
theorem MadeOf.of_map {change : Stmt → Stmt} (each : Each other block)
    (here : ∀ stmt, other stmt → (∀ part ∈ stmt.inner, MadeOf rule ending (part.map change)) →
      MadeOf rule ending [change stmt]) : MadeOf rule ending (block.map change) := by
  have blocks {stmts : Block} (single : ∀ stmt ∈ stmts, MadeOf rule ending [change stmt]) :
      MadeOf rule ending (stmts.map change) := by
    induction stmts with
    | nil => exact .nil
    | cons stmt stmts inStmts =>
      rw [List.forall_mem_cons] at single
      exact single.1.append (inStmts single.2)
  have single : ∀ stmt, other stmt → (∀ part ∈ stmt.inner, Each other part) →
      MadeOf rule ending [change stmt] := by
    intro stmt
    induction stmt using Stmt.inner_induction with
    | step stmt inside =>
      intro own parts
      refine here stmt own fun part among => blocks fun sub member => ?_
      obtain ⟨subOwn, subParts⟩ := each_iff.mp (parts part among) sub member
      exact inside part among sub member subOwn subParts
  exact blocks fun stmt member => single stmt (each_iff.mp each stmt member).1
    (each_iff.mp each stmt member).2

/-- Statements that all keep the rule need no copy of the ending. -/
theorem MadeOf.of_each (each : Each rule block) : MadeOf rule ending block := by
  have made := @MadeOf.of_map rule rule ending block id each fun stmt own parts =>
    .step own (by simpa using parts) .nil
  rwa [List.map_id] at made

/-- What is substituted is made of the same ending, if the substitution leaves that alone. -/
theorem MadeOf.subst {change : Substitution} (made : MadeOf rule ending block)
    (fixed : Block.subst ending change = ending)
    (carries : ∀ stmt, rule stmt → other (stmt.subst change)) :
    MadeOf other ending (Block.subst block change) := by
  induction made with
  | nil => exact .nil
  | @step stmt rest own _ _ inInner inTail =>
    rw [subst_cons]
    refine .step (carries stmt own) ?_ inTail
    rw [Stmt.inner_subst, List.forall_mem_map]
    exact inInner
  | leave _ inTail =>
    rw [subst_append, fixed]
    exact .leave inTail

/-- Replacing the bare returns of a block without other returns makes copies of the ending. -/
theorem MadeOf.leaving
    (each : Each (fun stmt => stmt = .ret none ∨ rule (stmt.leaving ending)) block)
    (nests : rule (.block ending)) : MadeOf rule ending (block.map (Stmt.leaving ending)) := by
  refine MadeOf.of_map each fun stmt own parts => ?_
  by_cases returns : stmt = .ret none
  · subst returns
    exact .step nests (by simpa [Stmt.leaving, Stmt.inner] using MadeOf.once) .nil
  · refine .step (own.resolve_left returns) ?_ .nil
    rw [Stmt.inner_leaving returns, List.forall_mem_map]
    exact parts

/-- An ending that pruning never touches. -/
def Lasts (refs marks : List VariableId) (ending : Block) : Prop :=
  ∀ {rest after : Block}, Prune.Trims refs marks (ending ++ rest) after →
    ∃ tail, after = ending ++ tail ∧ Prune.Trims refs marks rest tail

variable {refs marks : List VariableId} {trimmed : Block}

/-- A pruned block is made of the same ending, if pruning leaves that alone. -/
theorem MadeOf.trims (made : MadeOf rule ending block)
    (lasts : Lasts refs marks ending)
    (keeps : ∀ {stmt left : Stmt}, Prune.TrimsStmt refs marks stmt left → rule stmt → rule left)
    (trims : Prune.Trims refs marks block trimmed) : MadeOf rule ending trimmed := by
  induction made generalizing trimmed with
  | nil =>
    cases trims
    exact .nil
  | step own _ _ inInner inTail =>
    rcases trims.cons_inv with ⟨-, tail⟩ | ⟨left, after, rfl, kept, tail⟩
    · exact inTail tail
    · refine .step (keeps kept own) (fun part among => ?_) (inTail tail)
      obtain ⟨source, isInner, trimsPart⟩ := Outcome.forall₂_exists_left kept.inner among
      exact inInner source isInner trimsPart
  | leave _ inTail =>
    obtain ⟨tail, rfl, trimsRest⟩ := lasts trims
    exact .leave (inTail trimsRest)

/-- What stands in front does not change what a block ends in. -/
theorem EndsIn.append (front : Block) (ends : EndsIn ending block) :
    EndsIn ending (front ++ block) := by
  cases ends with
  | here front' =>
    rw [← List.append_assoc]
    exact .here _
  | inside front' ends =>
    rw [← List.append_assoc]
    exact .inside _ ends

/-- A block still ends in statements that a substitution leaves. -/
theorem EndsIn.subst {change : Substitution} (ends : EndsIn ending block)
    (fixed : Block.subst ending change = ending) : EndsIn ending (Block.subst block change) := by
  induction ends with
  | here front =>
    rw [subst_append, fixed]
    exact .here _
  | inside front _ inBody =>
    rw [subst_append]
    exact .inside _ inBody

/-- A block still ends in statements that pruning never touches. -/
theorem EndsIn.trims (ends : EndsIn ending block) (lasts : Lasts refs marks ending)
    (trims : Prune.Trims refs marks block trimmed) : EndsIn ending trimmed := by
  induction ends generalizing trimmed with
  | here front =>
    obtain ⟨before, after, rfl, -, trimsEnding⟩ := trims.append_inv
    obtain ⟨tail, rfl, trimsNothing⟩ := @lasts [] after (by simpa using trimsEnding)
    cases trimsNothing
    simpa using EndsIn.here before
  | inside front _ inBody =>
    obtain ⟨before, after, rfl, -, trimsBlock⟩ := trims.append_inv
    cases trimsBlock with
    | drop idle => exact idle.elim
    | keep lasts => exact lasts.elim
    | block inner tail =>
      cases tail
      exact .inside _ (inBody inner)

/-- A block is another one or stands in a statement of it, at any depth. -/
inductive Within : Block → Block → Prop where
  | self (block : Block) : Within block block
  | inside {part inner block : Block} {stmt : Stmt} (member : stmt ∈ block)
      (own : inner ∈ stmt.inner) (deeper : Within part inner) : Within part block

end Block

end ShaderPipeline
