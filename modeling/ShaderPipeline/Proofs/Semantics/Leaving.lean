import ShaderPipeline.Proofs.Handover
import ShaderPipeline.Proofs.Semantics.Entry
import ShaderPipeline.Proofs.WellTyped

/-!
# Runs that hand a value over

An entry point that returns nothing is made to return a value: every bare return of
its body, at any depth, is replaced by an ending that returns the value, and the
same ending follows the body. So the new body runs like the old one up to its
result and then once through the ending. This is an equation between runs, so it
holds whatever the ending does to the store.
-/

namespace ShaderPipeline

/-- What is done with the flow of a statement whose bare returns were replaced: in place of a
return, a value is computed and returned. -/
def Flow.leave (ending : Run Value) : Flow → Run Flow
  | .ret _ => ending >>= fun value => pure (.ret value)
  | flow => pure flow

/-- The next of several statements, once the flow of the one before is known. -/
def Flow.proceed (rest : Run Flow) : Flow → Run Flow
  | .next => rest
  | flow => pure flow

namespace Run

/-- Nothing comes after the end of the whole run. -/
theorem abort_bind {α β : Type} (next : α → Run β) : abort >>= next = abort := rfl

/-- A run that returns a value goes on with no other statement. -/
theorem returning_proceed (ending : Run Value) (rest : Run Flow) :
    (ending >>= fun value => pure (.ret value)) >>= Flow.proceed rest =
      ending >>= fun value => pure (.ret value) := by
  rw [bind_assoc]
  rfl

/-- Replacing the returns of two statements in a row replaces them in both. -/
theorem proceed_leave (first rest : Run Flow) (ending : Run Value) :
    (first >>= Flow.leave ending) >>= Flow.proceed (rest >>= Flow.leave ending) =
      (first >>= Flow.proceed rest) >>= Flow.leave ending := by
  simp only [bind_assoc]
  congr 1
  funext flow
  cases flow with
  | next | brk | cont => rfl
  | ret value => exact returning_proceed ending _

/-- Replacing the returns of the body of a loop replaces those of the loop. -/
theorem iterate_leave (test : Run Bool) (body : Run Flow) (ending : Run Value) (fuel : Nat) :
    iterate test (body >>= Flow.leave ending) fuel =
      iterate test body fuel >>= Flow.leave ending := by
  induction fuel with
  | zero => rfl
  | succ fuel inductionHypothesis =>
    simp only [iterate, bind_assoc]
    congr 1
    funext holds
    cases holds with
    | false => rfl
    | true =>
      simp only [if_true, bind_assoc]
      congr 1
      funext flow
      cases flow with
      | next | cont => exact inductionHypothesis
      | brk => rfl
      | ret value =>
        simp only [Flow.leave, bind_assoc]
        rfl

end Run

namespace Setting

variable {setting : Setting} {ending : Run Value}

/-- A block runs its first statement and goes on as that says. -/
theorem execAll_cons (stmt : Stmt) (stmts : Block) :
    setting.execAll (stmt :: stmts) = setting.exec stmt >>= Flow.proceed (setting.execAll stmts) := by
  rw [execAll]
  rfl

/-- A block that can only end by returning the value of a run. -/
def Returns (setting : Setting) (block : Block) (ending : Run Value) : Prop :=
  setting.execAll block = ending >>= fun value => pure (.ret value)

/-- Where the bare returns of a body are replaced, its run goes on with what replaced them. -/
theorem execAll_leaving {epilogue : Block} (returns : setting.Returns epilogue ending)
    {body : Block} (bare : body.Each Stmt.Bare) :
    setting.execAll (body.map (Stmt.leaving epilogue)) =
      setting.execAll body >>= Flow.leave ending := by
  have blocks {stmts : Block} (each : ∀ stmt ∈ stmts, setting.exec (stmt.leaving epilogue) =
      setting.exec stmt >>= Flow.leave ending) :
      setting.execAll (stmts.map (Stmt.leaving epilogue)) =
        setting.execAll stmts >>= Flow.leave ending := by
    induction stmts with
    | nil => simp only [List.map_nil, execAll, Run.pure_bind, Flow.leave]
    | cons stmt stmts inStmts =>
      rw [List.forall_mem_cons] at each
      rw [List.map_cons, execAll_cons, execAll_cons, each.1, inStmts each.2, Run.proceed_leave]
  have single : ∀ stmt : Stmt, stmt.Bare → (∀ part ∈ stmt.inner, Block.Each Stmt.Bare part) →
      setting.exec (stmt.leaving epilogue) = setting.exec stmt >>= Flow.leave ending := by
    intro stmt
    induction stmt using Stmt.inner_induction with
    | step stmt inside =>
      intro isBare parts
      have inner (part : Block) (own : part ∈ stmt.inner) :
          setting.execAll (part.map (Stmt.leaving epilogue)) =
            setting.execAll part >>= Flow.leave ending := by
        refine blocks fun sub member => ?_
        obtain ⟨subBare, subParts⟩ := Block.each_iff.mp (parts part own) sub member
        exact inside part own sub member subBare subParts
      cases stmt with
      | declare | eval | assign =>
        simp only [Stmt.leaving, exec, Run.bind_assoc, Run.pure_bind, Flow.leave]
      | brk | cont | discard =>
        simp only [Stmt.leaving, exec, Run.pure_bind, Run.abort_bind, Flow.leave]
      | ifThen condition yes =>
        simp only [Stmt.leaving, Stmt.leavingAll_eq_map, exec, Run.bind_assoc,
          inner yes (by simp [Stmt.inner])]
        congr 1
        funext held
        split <;> rfl
      | ifElse condition yes no =>
        simp only [Stmt.leaving, Stmt.leavingAll_eq_map, exec, Run.bind_assoc,
          inner yes (by simp [Stmt.inner]), inner no (by simp [Stmt.inner])]
        congr 1
        funext held
        split <;> rfl
      | loop condition body =>
        simp only [Stmt.leaving, Stmt.leavingAll_eq_map, exec,
          inner body (by simp [Stmt.inner]), Run.iterate_leave]
      | block body =>
        simp only [Stmt.leaving, Stmt.leavingAll_eq_map, exec,
          inner body (by simp [Stmt.inner])]
      | ret value =>
        cases value with
        | some value => exact absurd rfl (isBare value)
        | none =>
          simp only [Stmt.leaving, exec, Run.pure_bind, Flow.leave]
          exact returns
  refine blocks fun stmt member => ?_
  obtain ⟨isBare, parts⟩ := Block.each_iff.mp bare stmt member
  exact single stmt isBare parts

/-- A body with an ending in place of its bare returns and once more after it has the value of the
ending as its result, as soon as the old body has one. -/
theorem result_leaving {epilogue : Block} (returns : setting.Returns epilogue ending)
    {body : Block} (bare : body.Each Stmt.Bare) :
    setting.execAll (.block (Plan.replaceReturns body epilogue) :: epilogue) >>= Flow.result =
      (setting.execAll body >>= Flow.result) >>= fun _ => ending := by
  have last : setting.execAll epilogue >>= Flow.result = ending := by
    rw [show setting.execAll epilogue = _ from returns, Run.bind_assoc]
    exact Run.bind_pure ending
  rw [execAll_cons, exec, Plan.replaceReturns_eq_map, execAll_leaving returns bare]
  simp only [Run.bind_assoc]
  congr 1
  funext flow
  cases flow with
  | next => exact last
  | brk | cont => rfl
  | ret value =>
    simp only [Flow.leave, Flow.result, Run.bind_assoc, Run.pure_bind]
    exact Run.bind_pure ending

end Setting

end ShaderPipeline
