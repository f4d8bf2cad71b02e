import ShaderPipeline.Proofs.Tree
import ShaderPipeline.Tree.Rebuild

/-!
# Dialogues

Every step of a rebuild that is not fixed by the tree is a question to a hook. So a
rebuild is a dialogue: it asks, and how it goes on depends on the answer. Rebuilding
with some hooks is following the dialogue with them, whatever effects they have.
For hooks that keep a state and may fail, following a dialogue either goes through
exchanges to its end, or some exchanges are followed by a question that the hook
refuses, and nothing is asked after it.
-/

namespace ShaderPipeline

/-! ## Questions and answers -/

/-- What a rebuild may ask. -/
inductive Question where
  | keeps (id : VariableId)
  | prototype (function : FunctionId)
  | enters (function : FunctionId)
  | definition (function : FunctionId) (body : Block)
  | call (owner callee : FunctionId) (args : List Expr)
  | symbol (owner : FunctionId) (id : VariableId)

/-- What a question is answered with. -/
abbrev Question.Answer : Question → Type
  | keeps _ => Bool
  | prototype _ => FunctionId
  | enters _ => Bool
  | definition _ _ => FunctionId × Block
  | call _ _ _ => Expr
  | symbol _ _ => Expr

/-- A question with its answer. -/
structure Exchange where
  question : Question
  answer : question.Answer

namespace Rebuilder

variable {m : Type → Type} [Monad m]

/-- Puts a question to the hook that it is for. -/
def ask (hooks : Rebuilder m) : (question : Question) → m question.Answer
  | .keeps id => hooks.keeps id
  | .prototype function => hooks.prototype function
  | .enters function => hooks.enters function
  | .definition function body => hooks.definition function body
  | .call owner callee args => hooks.call owner callee args
  | .symbol owner id => hooks.symbol owner id

/-- The hooks that give some answers. -/
def ofAnswers (answers : (question : Question) → m question.Answer) : Rebuilder m where
  keeps id := answers (.keeps id)
  prototype function := answers (.prototype function)
  enters function := answers (.enters function)
  definition function body := answers (.definition function body)
  call owner callee args := answers (.call owner callee args)
  symbol owner id := answers (.symbol owner id)

@[simp] theorem ask_ofAnswers (answers : (question : Question) → m question.Answer)
    (question : Question) : (ofAnswers answers).ask question = answers question := by
  cases question <;> rfl

end Rebuilder

/-! ## Dialogues -/

/-- A computation that asks questions on its way to a value. -/
inductive Dialogue (α : Type) where
  | done (value : α)
  | ask (question : Question) (next : question.Answer → Dialogue α)

namespace Dialogue

variable {α β γ : Type}

protected def bind : Dialogue α → (α → Dialogue β) → Dialogue β
  | done value, next => next value
  | ask question rest, next => ask question fun answer => (rest answer).bind next

instance : Monad Dialogue where
  pure := done
  bind := Dialogue.bind

@[simp] theorem pure_eq (value : α) : (pure value : Dialogue α) = done value := rfl

@[simp] theorem done_bind (value : α) (next : α → Dialogue β) : done value >>= next = next value :=
  rfl

@[simp] theorem ask_bind (question : Question) (rest : question.Answer → Dialogue α)
    (next : α → Dialogue β) :
    ask question rest >>= next = ask question fun answer => rest answer >>= next := rfl

/-- The hooks that leave every answer open. -/
def asking : Rebuilder Dialogue := .ofAnswers fun question => ask question done

@[simp] theorem asking_keeps (id : VariableId) : asking.keeps id = ask (.keeps id) done := rfl

@[simp] theorem asking_prototype (function : FunctionId) :
    asking.prototype function = ask (.prototype function) done := rfl

@[simp] theorem asking_enters (function : FunctionId) :
    asking.enters function = ask (.enters function) done := rfl

@[simp] theorem asking_definition (function : FunctionId) (body : Block) :
    asking.definition function body = ask (.definition function body) done := rfl

@[simp] theorem asking_call (owner callee : FunctionId) (args : List Expr) :
    asking.call owner callee args = ask (.call owner callee args) done := rfl

@[simp] theorem asking_symbol (owner : FunctionId) (id : VariableId) :
    asking.symbol owner id = ask (.symbol owner id) done := rfl

/-- Follows a dialogue with the answers of some hooks. -/
def follow {m : Type → Type} [Monad m] (hooks : Rebuilder m) : Dialogue α → m α
  | done value => pure value
  | ask question next => do (next (← hooks.ask question)).follow hooks

section Follow

variable {m : Type → Type} [Monad m] (hooks : Rebuilder m)

@[simp] theorem follow_done (value : α) : (done value).follow hooks = pure value := rfl

@[simp] theorem follow_ask (question : Question) (next : question.Answer → Dialogue α) :
    (ask question next).follow hooks =
      hooks.ask question >>= fun answer => (next answer).follow hooks := rfl

variable [LawfulMonad m]

@[simp] theorem follow_bind (first : Dialogue α) (next : α → Dialogue β) :
    (first >>= next).follow hooks =
      first.follow hooks >>= fun value => (next value).follow hooks := by
  induction first with
  | done value => simp
  | ask question rest inductionHypothesis => simp [inductionHypothesis]

end Follow

/-! ## Rebuilds as dialogues -/

section Rebuilds

variable {m : Type → Type} [Monad m] [LawfulMonad m] (hooks : Rebuilder m) (owner : FunctionId)

/-- Rebuilding several expressions is following their dialogues, if it is for each of them. -/
theorem follow_rebuildAll_of_each {args : List Expr}
    (each : ∀ arg ∈ args, (arg.rebuild asking owner).follow hooks = arg.rebuild hooks owner) :
    (Expr.rebuildAll asking owner args).follow hooks = Expr.rebuildAll hooks owner args := by
  induction args with
  | nil => rfl
  | cons arg args inductionHypothesis =>
    rw [List.forall_mem_cons] at each
    simp [Expr.rebuildAll, each.1, inductionHypothesis each.2]

/-- Rebuilding an expression is following its dialogue. -/
@[simp] theorem follow_rebuild (expr : Expr) :
    (expr.rebuild asking owner).follow hooks = expr.rebuild hooks owner := by
  induction expr with
  | const value => rfl
  | var id => simp [Expr.rebuild, Rebuilder.ask]
  | field base position inBase => simp [Expr.rebuild, inBase]
  | index base position inBase inPosition => simp [Expr.rebuild, inBase, inPosition]
  | unary op operand inOperand => simp [Expr.rebuild, inOperand]
  | binary op left right inLeft inRight => simp [Expr.rebuild, inLeft, inRight]
  | construct type args inArgs =>
    simp [Expr.rebuild, follow_rebuildAll_of_each hooks owner inArgs]
  | call callee args inArgs =>
    simp [Expr.rebuild, follow_rebuildAll_of_each hooks owner inArgs, Rebuilder.ask]
  | sample sampler coordinates inSampler inCoordinates =>
    simp [Expr.rebuild, inSampler, inCoordinates]
  | addressOf operand inOperand => simp [Expr.rebuild, inOperand]

@[simp] theorem follow_rebuildOption (value : Option Expr) :
    (Expr.rebuildOption asking owner value).follow hooks =
      Expr.rebuildOption hooks owner value := by
  cases value <;> simp [Expr.rebuildOption]

/-- Rebuilding several statements is following their dialogues, if it is for each of them. -/
theorem follow_rebuildStmts_of_each {stmts : List Stmt}
    (each : ∀ stmt ∈ stmts, (stmt.rebuild asking owner).follow hooks = stmt.rebuild hooks owner) :
    (Stmt.rebuildAll asking owner stmts).follow hooks = Stmt.rebuildAll hooks owner stmts := by
  induction stmts with
  | nil => rfl
  | cons stmt stmts inductionHypothesis =>
    rw [List.forall_mem_cons] at each
    simp [Stmt.rebuildAll, each.1, inductionHypothesis each.2]

/-- Rebuilding a statement is following its dialogue. -/
theorem follow_rebuildStmt (stmt : Stmt) :
    (stmt.rebuild asking owner).follow hooks = stmt.rebuild hooks owner := by
  induction stmt with
  | declare id initial => simp [Stmt.rebuild]
  | eval value => simp [Stmt.rebuild]
  | assign target value => simp [Stmt.rebuild]
  | ifThen condition yes inYes =>
    simp [Stmt.rebuild, follow_rebuildStmts_of_each hooks owner inYes]
  | ifElse condition yes no inYes inNo =>
    simp [Stmt.rebuild, follow_rebuildStmts_of_each hooks owner inYes,
      follow_rebuildStmts_of_each hooks owner inNo]
  | loop condition body inBody =>
    simp [Stmt.rebuild, follow_rebuildStmts_of_each hooks owner inBody]
  | block body inBody => simp [Stmt.rebuild, follow_rebuildStmts_of_each hooks owner inBody]
  | ret value => simp [Stmt.rebuild]
  | brk | cont | discard => rfl

@[simp] theorem follow_rebuildStmts (stmts : List Stmt) :
    (Stmt.rebuildAll asking owner stmts).follow hooks = Stmt.rebuildAll hooks owner stmts :=
  follow_rebuildStmts_of_each hooks owner fun stmt _ => follow_rebuildStmt hooks owner stmt

/-- Rebuilding a declaration is following its dialogue. -/
theorem follow_rebuildGlobal (global : Global) :
    (global.rebuild asking).follow hooks = global.rebuild hooks := by
  cases global with
  | struct type => rfl
  | var id => simp [Global.rebuild, Rebuilder.ask]
  | prototype function => simp [Global.rebuild, Rebuilder.ask]
  | definition function body =>
    simp only [Global.rebuild, asking_enters, ask_bind, follow_ask, Rebuilder.ask]
    refine congrArg (hooks.enters function >>= ·) (funext fun entered => ?_)
    cases entered <;> simp [Rebuilder.ask]

/-- Rebuilding declarations is following their dialogue. -/
theorem follow_rebuildGlobals (globals : List Global) :
    (Global.rebuildAll asking globals).follow hooks = Global.rebuildAll hooks globals := by
  induction globals with
  | nil => rfl
  | cons global rest inductionHypothesis =>
    simp [Global.rebuildAll, follow_rebuildGlobal, inductionHypothesis]

end Rebuilds

/-! ## Exchanges -/

/-- The dialogue goes through some exchanges and ends with a value. -/
def Holds : Dialogue α → List Exchange → α → Prop
  | done value, record, result => record = [] ∧ result = value
  | ask question next, record, result =>
    ∃ answer rest, record = ⟨question, answer⟩ :: rest ∧ (next answer).Holds rest result

@[simp] theorem holds_done {value result : α} {record : List Exchange} :
    (done value).Holds record result ↔ record = [] ∧ result = value := Iff.rfl

@[simp] theorem holds_ask {question : Question} {next : question.Answer → Dialogue α}
    {record : List Exchange} {result : α} : (ask question next).Holds record result ↔
      ∃ answer rest, record = ⟨question, answer⟩ :: rest ∧ (next answer).Holds rest result :=
  Iff.rfl

/-- What two dialogues go through one after the other. -/
theorem holds_bind {first : Dialogue α} {next : α → Dialogue β} {record : List Exchange}
    {result : β} : (first >>= next).Holds record result ↔
      ∃ front back value, record = front ++ back ∧ first.Holds front value ∧
        (next value).Holds back result := by
  induction first generalizing record with
  | done value =>
    constructor
    · intro holds
      exact ⟨[], record, value, rfl, ⟨rfl, rfl⟩, holds⟩
    · rintro ⟨_, back, _, rfl, ⟨rfl, rfl⟩, holds⟩
      exact holds
  | ask question rest inductionHypothesis =>
    simp only [ask_bind, holds_ask, inductionHypothesis]
    constructor
    · rintro ⟨answer, _, rfl, front, back, value, rfl, holds, others⟩
      exact ⟨_, back, value, rfl, ⟨answer, front, rfl, holds⟩, others⟩
    · rintro ⟨_, back, value, rfl, ⟨answer, front, rfl, holds⟩, others⟩
      exact ⟨answer, front ++ back, rfl, front, back, value, rfl, holds, others⟩

/-- Every dialogue can come to its end, if only the hooks answer. -/
theorem exists_holds (dialogue : Dialogue α) : ∃ record result, dialogue.Holds record result := by
  induction dialogue with
  | done value => exact ⟨[], value, rfl, rfl⟩
  | ask question next inductionHypothesis =>
    let answer : question.Answer := ({} : Rebuilder Id).ask question
    obtain ⟨record, result, holds⟩ := inductionHypothesis answer
    exact ⟨⟨question, answer⟩ :: record, result, answer, record, rfl, holds⟩

/-- With hooks that only compute, following a dialogue is a computation. -/
theorem follow_eq_pure {m : Type → Type} [Monad m] [LawfulMonad m] {hooks : Rebuilder m}
    {plain : Rebuilder Id} (computed : ∀ question, hooks.ask question = pure (plain.ask question))
    (dialogue : Dialogue α) : dialogue.follow hooks = pure (dialogue.follow plain) := by
  induction dialogue with
  | done value => rfl
  | ask question next inductionHypothesis =>
    rw [follow_ask, computed, pure_bind, inductionHypothesis]
    rfl

/-- With answers that are computed from the questions, a dialogue ends as if it were followed. -/
theorem Holds.eq_follow {hooks : Rebuilder Id} {dialogue : Dialogue α} {record : List Exchange}
    {result : α} (holds : dialogue.Holds record result)
    (computed : ∀ exchange ∈ record, exchange.answer = hooks.ask exchange.question) :
    result = dialogue.follow hooks := by
  induction dialogue generalizing record with
  | done value => exact holds.2
  | ask question next inductionHypothesis =>
    obtain ⟨answer, rest, rfl, others⟩ := holds
    rw [List.forall_mem_cons] at computed
    obtain rfl : answer = hooks.ask question := computed.1
    exact inductionHypothesis _ others computed.2

end Dialogue

/-! ## Hooks with a state that may fail -/

/-- Operations that keep a state and may fail. What a failing operation did to the state stays. -/
abbrev Stateful (ε σ : Type) := ExceptT ε (StateM σ)

section Stateful

variable {ε σ α β : Type}

/-- What comes of an operation, and the state that it leaves. -/
def Stateful.outcome (operation : Stateful ε σ α) (state : σ) : Except ε α × σ :=
  operation.run.run state

/-- An operation that only gives a value leaves the state. -/
theorem Stateful.outcome_pure (value : α) (state : σ) :
    (pure value : Stateful ε σ α).outcome state = (.ok value, state) := rfl

/-- After a failure nothing more happens, and the state stays what it was then. -/
theorem Stateful.outcome_bind (first : Stateful ε σ α) (next : α → Stateful ε σ β) (state : σ) :
    (first >>= next).outcome state = match first.outcome state with
      | (.ok value, after) => (next value).outcome after
      | (.error error, after) => (.error error, after) := by
  unfold Stateful.outcome
  rw [ExceptT.run_bind, StateT.run_bind]
  rcases first.run.run state with ⟨error | value, after⟩
  · rfl
  · rfl

namespace Rebuilder

/-- Hooks that are asked one question after the other reply as recorded. -/
def Replies (hooks : Rebuilder (Stateful ε σ)) : σ → List Exchange → σ → Prop
  | before, [], after => after = before
  | before, exchange :: record, after => ∃ middle,
    (hooks.ask exchange.question).outcome before = (.ok exchange.answer, middle) ∧
      hooks.Replies middle record after

/-- The same hooks, with a list of all questions that were asked, also of one that was refused. -/
def recording (hooks : Rebuilder (Stateful ε σ)) : Rebuilder (Stateful ε (σ × List Question)) :=
  .ofAnswers fun question => do
    let (state, asked) ← get
    let (outcome, after) := (hooks.ask question).outcome state
    set (after, asked ++ [question])
    match outcome with
    | .ok answer => pure answer
    | .error error => throw error

/-- Recording does not change what a hook answers, nor what it leaves. -/
theorem recording_outcome (hooks : Rebuilder (Stateful ε σ)) (question : Question) (state : σ)
    (asked : List Question) : (hooks.recording.ask question).outcome (state, asked) =
      (((hooks.ask question).outcome state).1,
        (((hooks.ask question).outcome state).2, asked ++ [question])) := by
  rw [recording, ask_ofAnswers]
  simp only [Stateful.outcome_bind]
  change Stateful.outcome (match ((hooks.ask question).outcome state).1 with
    | .ok answer => pure answer
    | .error error => throw error) (((hooks.ask question).outcome state).2, asked ++ [question]) = _
  cases ((hooks.ask question).outcome state).1 <;> rfl

/-- A recording adds the questions of the exchanges to what was asked before. -/
theorem replies_recording {hooks : Rebuilder (Stateful ε σ)} {before after : σ}
    {asked all : List Question} {record : List Exchange} :
    hooks.recording.Replies (before, asked) record (after, all) ↔
      hooks.Replies before record after ∧ all = asked ++ record.map Exchange.question := by
  induction record generalizing before asked with
  | nil => simp [Replies]
  | cons exchange record inductionHypothesis =>
    simp only [Replies, recording_outcome]
    constructor
    · rintro ⟨⟨middle, others⟩, answered, rest⟩
      obtain ⟨sameAnswer, sameState, rfl⟩ := Prod.mk.inj answered |>.imp_right Prod.mk.inj
      obtain ⟨replies, rfl⟩ := inductionHypothesis.mp rest
      exact ⟨⟨middle, Prod.ext sameAnswer sameState, replies⟩, by simp⟩
    · rintro ⟨⟨middle, answered, replies⟩, rfl⟩
      refine ⟨(middle, asked ++ [exchange.question]), by rw [answered], ?_⟩
      exact inductionHypothesis.mpr ⟨replies, by simp⟩

end Rebuilder

namespace Dialogue

variable {hooks : Rebuilder (Stateful ε σ)} {dialogue : Dialogue α}

/-- A dialogue that is followed to its end goes through the exchanges that the hooks reply with. -/
theorem outcome_eq_ok_iff {before after : σ} {value : α} :
    (dialogue.follow hooks).outcome before = (.ok value, after) ↔
      ∃ record, dialogue.Holds record value ∧ hooks.Replies before record after := by
  induction dialogue generalizing before with
  | done other =>
    simp only [follow_done, Stateful.outcome_pure, Prod.mk.injEq, Except.ok.injEq, holds_done]
    constructor
    · rintro ⟨rfl, rfl⟩
      exact ⟨[], ⟨rfl, rfl⟩, rfl⟩
    · rintro ⟨_, ⟨rfl, rfl⟩, rfl⟩
      exact ⟨rfl, rfl⟩
  | ask question next inductionHypothesis =>
    rw [follow_ask, Stateful.outcome_bind]
    cases asked : (hooks.ask question).outcome before with
    | mk outcome middle =>
      cases outcome with
      | error error =>
        constructor
        · simp
        · rintro ⟨_, ⟨answer, rest, rfl, -⟩, _, answered, -⟩
          simp [asked] at answered
      | ok answer =>
        refine inductionHypothesis answer |>.trans ⟨?_, ?_⟩
        · rintro ⟨record, holds, replies⟩
          exact ⟨_, ⟨answer, record, rfl, holds⟩, middle, asked, replies⟩
        · rintro ⟨_, ⟨other, rest, rfl, holds⟩, _, answered, replies⟩
          obtain ⟨same, rfl⟩ : Except.ok answer = Except.ok other ∧ middle = _ :=
            Prod.mk.inj (asked.symm.trans answered)
          obtain rfl : answer = other := Except.ok.inj same
          exact ⟨rest, holds, replies⟩

/-- A dialogue fails with the first question that a hook refuses. The exchanges before it and the
question itself are those of the dialogue, and nothing is asked after it. -/
theorem outcome_eq_error_iff {before after : σ} {error : ε} :
    (dialogue.follow hooks).outcome before = (.error error, after) ↔
      ∃ record question middle,
        (∃ answer rest value, dialogue.Holds (record ++ ⟨question, answer⟩ :: rest) value) ∧
        hooks.Replies before record middle ∧
        (hooks.ask question).outcome middle = (.error error, after) := by
  induction dialogue generalizing before with
  | done value =>
    constructor
    · simp [Stateful.outcome_pure]
    · rintro ⟨_, _, _, ⟨_, _, _, empty, -⟩, -⟩
      simp at empty
  | ask question next inductionHypothesis =>
    rw [follow_ask, Stateful.outcome_bind]
    cases asked : (hooks.ask question).outcome before with
    | mk outcome middle =>
      cases outcome with
      | error refused =>
        simp only [Prod.mk.injEq, Except.error.injEq]
        constructor
        · rintro ⟨rfl, rfl⟩
          let answer : question.Answer := ({} : Rebuilder Id).ask question
          obtain ⟨rest, value, holds⟩ := exists_holds (next answer)
          exact ⟨[], question, before, ⟨answer, rest, value, answer, rest, rfl, holds⟩, rfl,
            asked⟩
        · rintro ⟨record, other, last, ⟨answer, rest, value, answered, more, same, holds⟩, replies,
            fails⟩
          cases record with
          | nil =>
            obtain rfl : last = before := replies
            obtain ⟨⟨rfl, -⟩, -⟩ := List.cons.inj same |>.imp_left Exchange.mk.inj
            exact (Prod.mk.inj (asked.symm.trans fails)).imp_left Except.error.inj
          | cons exchange record =>
            obtain ⟨rfl, -⟩ := List.cons.inj same
            obtain ⟨_, replied, -⟩ := replies
            simp [asked] at replied
      | ok answer =>
        refine (inductionHypothesis answer).trans ⟨?_, ?_⟩
        · rintro ⟨record, other, last, ⟨reply, rest, value, holds⟩, replies, fails⟩
          exact ⟨⟨question, answer⟩ :: record, other, last,
            ⟨reply, rest, value, answer, _, rfl, holds⟩, ⟨middle, asked, replies⟩, fails⟩
        · rintro ⟨record, other, last, ⟨reply, rest, value, answered, more, same, holds⟩, replies,
            fails⟩
          cases record with
          | nil =>
            obtain rfl : last = before := replies
            obtain ⟨⟨rfl, -⟩, -⟩ := List.cons.inj same |>.imp_left Exchange.mk.inj
            simp [asked] at fails
          | cons exchange record =>
            obtain ⟨rfl, rfl⟩ := List.cons.inj same
            obtain ⟨_, replied, replies⟩ := replies
            obtain ⟨sameAnswer, rfl⟩ : Except.ok answer = Except.ok answered ∧ middle = _ :=
              Prod.mk.inj (asked.symm.trans replied)
            obtain rfl : answer = answered := Except.ok.inj sameAnswer
            exact ⟨record, other, last, ⟨reply, rest, value, holds⟩, replies, fails⟩

end Dialogue

end Stateful

end ShaderPipeline
