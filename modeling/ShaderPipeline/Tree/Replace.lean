import ShaderPipeline.Program

/-!
# Replacing statements

Every statement of a block is replaced by any number of statements. The blocks
nested in a statement are done before the statement itself, and what is put in
is not looked at again.
-/

namespace ShaderPipeline

namespace Stmt

mutual

/-- Does the blocks nested in a statement, then replaces the statement. -/
def replaceM {m : Type → Type} [Monad m] (change : Stmt → m (List Stmt)) :
    Stmt → m (List Stmt)
  | ifThen condition yes => do
    change (ifThen condition (← replaceAllM change yes))
  | ifElse condition yes no => do
    let yes ← replaceAllM change yes
    let no ← replaceAllM change no
    change (ifElse condition yes no)
  | loop condition body => do
    change (loop condition (← replaceAllM change body))
  | block body => do
    change (block (← replaceAllM change body))
  | declare id initial => change (declare id initial)
  | eval value => change (eval value)
  | assign target value => change (assign target value)
  | ret value => change (ret value)
  | brk => change brk
  | cont => change cont
  | discard => change discard
termination_by structural stmt => stmt

/-- Replaces the statements of a block from first to last. -/
def replaceAllM {m : Type → Type} [Monad m] (change : Stmt → m (List Stmt)) :
    List Stmt → m (List Stmt)
  | [] => pure []
  | stmt :: stmts => do
    let first ← stmt.replaceM change
    let rest ← replaceAllM change stmts
    return first ++ rest
termination_by structural stmts => stmts

end

end Stmt

/-- Replaces every statement of a block, at any depth. -/
def Block.replaceM {m : Type → Type} [Monad m] (block : Block)
    (change : Stmt → m (List Stmt)) : m Block :=
  Stmt.replaceAllM change block

/-- Replaces every statement of a block, at any depth, by what a function gives for it. -/
def Block.replace (block : Block) (change : Stmt → List Stmt) : Block :=
  Id.run (block.replaceM fun stmt => pure (change stmt))

/-- Applies a change to the body of every definition, in order. -/
def Global.mapBodiesM {m : Type → Type} [Monad m]
    (change : FunctionId → Block → m Block) : List Global → m (List Global)
  | [] => pure []
  | .definition function body :: rest => do
    let body ← change function body
    let rest ← mapBodiesM change rest
    return .definition function body :: rest
  | other :: rest => do
    let rest ← mapBodiesM change rest
    return other :: rest

end ShaderPipeline
