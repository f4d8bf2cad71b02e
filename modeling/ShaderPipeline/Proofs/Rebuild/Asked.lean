import ShaderPipeline.Proofs.Rebuild.Coverage

/-!
# The questions about a body

What a rebuild asks about a body is fixed before any answer: the calls in the order in
which they finish, and the mentions of variables in theirs. Hooks that answer these
questions without an effect substitute in the body, whatever else they do.
-/

namespace ShaderPipeline

/-! ## Dialogues about a body -/

namespace Dialogue

/-- A dialogue asks about these calls and these mentions in the body of `owner`, each in their
order, whatever the answers are. -/
inductive Asks (owner : FunctionId) {α : Type} :
    Dialogue α → List FunctionId → List VariableId → Prop
  | done (value : α) : Asks owner (done value) [] []
  | call (callee : FunctionId) (args : List Expr) {next : Expr → Dialogue α}
      {callees : List FunctionId} {mentions : List VariableId}
      (rest : ∀ answer, Asks owner (next answer) callees mentions) :
      Asks owner (ask (.call owner callee args) next) (callee :: callees) mentions
  | symbol (id : VariableId) {next : Expr → Dialogue α} {callees : List FunctionId}
      {mentions : List VariableId} (rest : ∀ answer, Asks owner (next answer) callees mentions) :
      Asks owner (ask (.symbol owner id) next) callees (id :: mentions)

variable {α β : Type} {owner : FunctionId} {callees moreCallees : List FunctionId}
  {mentions moreMentions : List VariableId} {dialogue : Dialogue α}

/-- One dialogue after another asks the questions of both. -/
theorem Asks.bind {next : α → Dialogue β} (asks : dialogue.Asks owner callees mentions)
    (after : ∀ value, (next value).Asks owner moreCallees moreMentions) :
    (dialogue >>= next).Asks owner (callees ++ moreCallees) (mentions ++ moreMentions) := by
  induction asks with
  | done value => exact after value
  | call callee args _ inductionHypothesis => exact .call callee args inductionHypothesis
  | symbol id _ inductionHypothesis => exact .symbol id inductionHypothesis

/-- Changing the value of a dialogue asks nothing more. -/
theorem Asks.map (asks : dialogue.Asks owner callees mentions) (change : α → β) :
    (dialogue >>= fun value => .done (change value)).Asks owner callees mentions := by
  simpa using asks.bind fun value => .done (change value)

/-- Hooks that answer all questions of a dialogue without an effect only compute. -/
theorem Asks.follow_eq_pure {m : Type → Type} [Monad m] [LawfulMonad m] {hooks : Rebuilder m}
    {plain : Rebuilder Id} (asks : dialogue.Asks owner callees mentions)
    (calls : ∀ callee ∈ callees, ∀ args,
      hooks.call owner callee args = pure (plain.call owner callee args))
    (symbols : ∀ id ∈ mentions, hooks.symbol owner id = pure (plain.symbol owner id)) :
    dialogue.follow hooks = pure (dialogue.follow plain) := by
  induction asks with
  | done value => rfl
  | call callee args _ inductionHypothesis =>
    rw [List.forall_mem_cons] at calls
    rw [follow_ask, Rebuilder.ask, calls.1, pure_bind, inductionHypothesis _ calls.2 symbols]
    rfl
  | symbol id _ inductionHypothesis =>
    rw [List.forall_mem_cons] at symbols
    rw [follow_ask, Rebuilder.ask, symbols.1, pure_bind, inductionHypothesis _ calls symbols.2]
    rfl

/-- If some mention is refused and nothing fails otherwise, a dialogue ends with that failure. -/
theorem Asks.follow_eq_error {ε : Type} {hooks : Rebuilder (Except ε)} {error : ε}
    (asks : dialogue.Asks owner callees mentions)
    (calls : ∀ callee ∈ callees, ∀ args, ∃ answer, hooks.call owner callee args = .ok answer)
    (symbols : ∀ id ∈ mentions,
      hooks.symbol owner id = .error error ∨ ∃ answer, hooks.symbol owner id = .ok answer)
    (refused : ∃ id ∈ mentions, hooks.symbol owner id = .error error) :
    dialogue.follow hooks = .error error := by
  induction asks with
  | done value => simp at refused
  | call callee args _ inductionHypothesis =>
    rw [List.forall_mem_cons] at calls
    obtain ⟨answer, answered⟩ := calls.1 args
    rw [follow_ask, Rebuilder.ask, answered]
    exact inductionHypothesis answer calls.2 symbols refused
  | symbol id _ inductionHypothesis =>
    rw [List.forall_mem_cons] at symbols
    rw [follow_ask, Rebuilder.ask]
    rcases symbols.1 with failed | ⟨answer, answered⟩
    · rw [failed]
      rfl
    · rw [answered]
      refine inductionHypothesis answer calls symbols.2 ?_
      simpa [answered] using refused

end Dialogue

open Dialogue (asking)

/-! ## Expressions -/

namespace Expr

variable {owner : FunctionId}

/-- The variables that an expression mentions, from left to right. -/
def mentions (expr : Expr) : List VariableId := expr.nodes.filterMap symbol?

/-- The mentions among the parts of several expressions are those of each of them. -/
theorem filterMap_nodesOfAll (args : List Expr) :
    (nodesOfAll args).filterMap symbol? = args.flatMap mentions := by
  rw [nodesOfAll_eq_flatMap, List.filterMap_flatMap]
  rfl

/-- Several expressions are asked about in order, if each of them is. -/
theorem asks_of_each {args : List Expr}
    (each : ∀ arg ∈ args, (arg.rebuild asking owner).Asks owner arg.calls arg.mentions) :
    (rebuildAll asking owner args).Asks owner (callsOfAll args) (args.flatMap mentions) := by
  induction args with
  | nil => exact .done []
  | cons arg args inductionHypothesis =>
    rw [List.forall_mem_cons] at each
    exact each.1.bind fun arg => (inductionHypothesis each.2).map (arg :: ·)

section Parts

attribute [local simp] rebuild calls nodes mentions symbol? filterMap_nodesOfAll List.filterMap_cons

/-- A rebuild of an expression asks about its calls and mentions. -/
theorem rebuild_asks (expr : Expr) :
    (expr.rebuild asking owner).Asks owner expr.calls expr.mentions := by
  induction expr with
  | const value => exact .done _
  | var id => exact .symbol id .done
  | field base position inBase => exact inBase.map (field · position)
  | index base position inBase inPosition =>
    simpa using inBase.bind fun base => inPosition.map (index base)
  | unary op operand inOperand => exact inOperand.map (unary op)
  | binary op left right inLeft inRight =>
    simpa using inLeft.bind fun left => inRight.map (binary op left)
  | construct type args inArgs => simpa using (asks_of_each inArgs).map (construct type)
  | call callee args inArgs =>
    simpa using (asks_of_each inArgs).bind fun args => .call callee args .done
  | sample sampler coordinates inSampler inCoordinates =>
    simpa using inSampler.bind fun sampler => inCoordinates.map (sample sampler)
  | addressOf operand inOperand => exact inOperand.map addressOf

end Parts

/-- So does a rebuild of an expression that may be absent. -/
theorem rebuildOption_asks (value : Option Expr) :
    (rebuildOption asking owner value).Asks owner (value.toList.flatMap calls)
      (value.toList.flatMap mentions) := by
  cases value with
  | none => exact .done none
  | some value => simpa [rebuildOption] using value.rebuild_asks.map some

end Expr

/-! ## Bodies -/

namespace Stmt

variable {owner : FunctionId}

/-- The statements of a block are asked about in order, if each of them is. -/
theorem asks_of_each {stmts : Block}
    (each : ∀ stmt ∈ stmts, (stmt.rebuild asking owner).Asks owner
      (stmt.roots.flatMap Expr.calls) (stmt.roots.flatMap Expr.mentions)) :
    (rebuildAll asking owner stmts).Asks owner (stmts.roots.flatMap Expr.calls)
      (stmts.roots.flatMap Expr.mentions) := by
  induction stmts with
  | nil => exact .done []
  | cons stmt stmts inductionHypothesis =>
    rw [List.forall_mem_cons] at each
    simpa [rebuildAll] using
      each.1.bind fun stmt => (inductionHypothesis each.2).map (stmt :: ·)

/-- A rebuild of a statement asks about the expressions that it holds, its own ones first. -/
theorem rebuild_asks (stmt : Stmt) : (stmt.rebuild asking owner).Asks owner
    (stmt.roots.flatMap Expr.calls) (stmt.roots.flatMap Expr.mentions) := by
  induction stmt with
  | declare id initial =>
    simpa [rebuild] using (Expr.rebuildOption_asks initial).map (declare id)
  | eval value => simpa [rebuild] using value.rebuild_asks.map eval
  | assign target value =>
    simpa [rebuild] using
      target.rebuild_asks.bind fun target => value.rebuild_asks.map (assign target)
  | ifThen condition yes inYes =>
    simpa [rebuild] using
      condition.rebuild_asks.bind fun condition => (asks_of_each inYes).map (ifThen condition)
  | ifElse condition yes no inYes inNo =>
    simpa [rebuild] using
      condition.rebuild_asks.bind fun condition => (asks_of_each inYes).bind fun yes =>
        (asks_of_each inNo).map (ifElse condition yes)
  | loop condition body inBody =>
    simpa [rebuild] using
      condition.rebuild_asks.bind fun condition => (asks_of_each inBody).map (loop condition)
  | block body inBody => simpa [rebuild] using (asks_of_each inBody).map block
  | ret value => simpa [rebuild] using (Expr.rebuildOption_asks value).map ret
  | brk | cont | discard => exact .done _

end Stmt

/-- The hooks that substitute in every body alike. -/
def Substitution.hooks (change : Substitution) : Rebuilder Id where
  call _ := change.call
  symbol _ := change.symbol

@[simp] theorem Substitution.change_hooks (change : Substitution) (owner : FunctionId) :
    change.hooks.change owner = change := rfl

/-- A question about a call is answered with what the substitution puts for it. -/
theorem Substitution.follow_call {α : Type} (change : Substitution) (owner callee : FunctionId)
    (args : List Expr) (next : Expr → Dialogue α) :
    (Dialogue.ask (.call owner callee args) next).follow change.hooks =
      (next (change.call callee args)).follow change.hooks := rfl

namespace Block

variable {owner : FunctionId}

/-- A rebuild of a body asks about the calls and the mentions that a walk lists. -/
theorem rebuild_asks (body : Block) :
    (Stmt.rebuildAll asking owner body).Asks owner body.calls body.symbols := by
  have sameCalls : body.roots.flatMap Expr.calls = body.calls := by
    simp [roots, calls, List.flatMap_assoc]
  have sameMentions : body.roots.flatMap Expr.mentions = body.symbols := by
    rw [symbols, ← nodesOfAll_roots, Expr.filterMap_nodesOfAll]
  rw [← sameCalls, ← sameMentions]
  exact Stmt.asks_of_each fun stmt _ => stmt.rebuild_asks

/-- Following the dialogue about a body with the hooks of a substitution is the substitution. -/
theorem follow_eq_subst (body : Block) (change : Substitution) :
    (Stmt.rebuildAll asking owner body).follow change.hooks = body.subst change := by
  rw [Dialogue.follow_rebuildStmts, rebuild_eq_subst, Substitution.change_hooks]

/-- Hooks that answer all questions about a body without an effect substitute in it. -/
theorem rebuild_eq_pure {m : Type → Type} [Monad m] [LawfulMonad m] {hooks : Rebuilder m}
    {body : Block} {change : Substitution}
    (calls : ∀ callee ∈ body.calls, ∀ args,
      hooks.call owner callee args = pure (change.call callee args))
    (symbols : ∀ id ∈ body.symbols, hooks.symbol owner id = pure (change.symbol id)) :
    Stmt.rebuildAll hooks owner body = pure (body.subst change) := by
  have computed : (Stmt.rebuildAll asking owner body).follow hooks =
      pure ((Stmt.rebuildAll asking owner body).follow change.hooks) :=
    body.rebuild_asks.follow_eq_pure calls symbols
  rw [← Dialogue.follow_rebuildStmts, computed, follow_eq_subst]

end Block

end ShaderPipeline
