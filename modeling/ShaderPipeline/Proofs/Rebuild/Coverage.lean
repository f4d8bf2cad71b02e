import ShaderPipeline.Proofs.Rebuild.Visits

/-!
# What a rebuild does

A rebuild of a body keeps its statements and rebuilds the expressions that they hold,
first to last. So the coverage of nodes goes from expressions to bodies, and a record
of exchanges says all about the rebuild of a list of declarations. With hooks that keep
a state and may fail, either the rebuild has such a record, or it ends with the first
question that a hook refuses.
-/

namespace ShaderPipeline

/-! ## Bodies -/

namespace Stmt

mutual

/-- A statement with the same placeholder for each of its expressions. -/
def blank : Stmt → Stmt
  | declare id initial => declare id (initial.map fun _ => .const (.bool false))
  | eval _ => eval (.const (.bool false))
  | assign _ _ => assign (.const (.bool false)) (.const (.bool false))
  | ifThen _ yes => ifThen (.const (.bool false)) (blankAll yes)
  | ifElse _ yes no => ifElse (.const (.bool false)) (blankAll yes) (blankAll no)
  | loop _ body => loop (.const (.bool false)) (blankAll body)
  | block body => block (blankAll body)
  | ret value => ret (value.map fun _ => .const (.bool false))
  | brk => brk
  | cont => cont
  | discard => discard
termination_by structural stmt => stmt

/-- The statements of a block without their expressions. -/
def blankAll : List Stmt → List Stmt
  | [] => []
  | stmt :: stmts => stmt.blank :: blankAll stmts
termination_by structural stmts => stmts

end

end Stmt

/-- What becomes of a body after some exchanges: its statements stay what they are, the expressions
in them are rebuilt in order, and the exchanges cover what a walk lists. -/
structure Block.Visited (owner : FunctionId) (body : Block) (record : List Exchange)
    (result : Block) : Prop where
  form : Stmt.blankAll result = Stmt.blankAll body
  roots : Expr.RebuiltAll owner body.roots record result.roots
  covered : Expr.Covered owner body.exprs record

/-- The parts of the expressions in a block are those that a walk lists. -/
theorem Block.nodesOfAll_roots (block : Block) : Expr.nodesOfAll block.roots = block.exprs := by
  simp [Expr.nodesOfAll_eq_flatMap, roots, exprs, List.flatMap_assoc]

namespace Stmt

variable {owner : FunctionId}

/-- A rebuild of a statement keeps its form and rebuilds its expressions. -/
def Keeps (owner : FunctionId) (stmt : Stmt) (record : List Exchange) (result : Stmt) : Prop :=
  result.blank = stmt.blank ∧ Expr.RebuiltAll owner stmt.roots record result.roots

/-- Statements keep their form and have their expressions rebuilt in order, if each of them does. -/
theorem keeps_of_each {stmts results : List Stmt} {record : List Exchange}
    (each : ∀ stmt ∈ stmts, ∀ record result,
      (stmt.rebuild Dialogue.asking owner).Holds record result → stmt.Keeps owner record result)
    (holds : (rebuildAll Dialogue.asking owner stmts).Holds record results) :
    blankAll results = blankAll stmts ∧
      Expr.RebuiltAll owner (Block.roots stmts) record (Block.roots results) := by
  induction stmts generalizing record results with
  | nil =>
    obtain ⟨rfl, rfl⟩ := holds
    exact ⟨rfl, .nil⟩
  | cons stmt stmts inductionHypothesis =>
    rw [List.forall_mem_cons] at each
    simp only [rebuildAll, Dialogue.holds_bind, Dialogue.pure_eq, Dialogue.holds_done] at holds
    obtain ⟨first, _, result, rfl, atFirst, others, _, results, rfl, atOthers, rfl, rfl⟩ := holds
    obtain ⟨sameFirst, rootsFirst⟩ := each.1 _ _ atFirst
    obtain ⟨sameOthers, rootsOthers⟩ := inductionHypothesis each.2 atOthers
    refine ⟨by simp only [blankAll, sameFirst, sameOthers], ?_⟩
    rw [List.append_nil, Block.roots_cons, Block.roots_cons]
    exact rootsFirst.append rootsOthers

/-- An expression that may be absent is rebuilt where it is there. -/
theorem rebuiltOption_of_holds {value result : Option Expr} {record : List Exchange}
    (holds : (Expr.rebuildOption Dialogue.asking owner value).Holds record result) :
    (result.map fun _ => Expr.const (.bool false)) = value.map (fun _ => .const (.bool false)) ∧
      Expr.RebuiltAll owner value.toList record result.toList := by
  cases value with
  | none =>
    obtain ⟨rfl, rfl⟩ := holds
    exact ⟨rfl, .nil⟩
  | some value =>
    obtain ⟨_, _, newValue, rfl, atValue, rfl, rfl⟩ := Dialogue.holds_bind.mp holds
    rw [List.append_nil]
    exact ⟨rfl, .singleton (Expr.rebuilt_of_holds atValue)⟩

/-- The dialogue of a statement keeps its form and rebuilds its expressions. -/
theorem keeps_of_holds {stmt result : Stmt} {record : List Exchange}
    (holds : (stmt.rebuild Dialogue.asking owner).Holds record result) :
    stmt.Keeps owner record result := by
  induction stmt generalizing record result with
  | declare id initial =>
    obtain ⟨_, _, newInitial, rfl, atInitial, rfl, rfl⟩ := Dialogue.holds_bind.mp holds
    obtain ⟨same, roots⟩ := rebuiltOption_of_holds atInitial
    refine ⟨by simp only [blank, same], ?_⟩
    simpa using roots
  | ret value =>
    obtain ⟨_, _, newValue, rfl, atValue, rfl, rfl⟩ := Dialogue.holds_bind.mp holds
    obtain ⟨same, roots⟩ := rebuiltOption_of_holds atValue
    refine ⟨by simp only [blank, same], ?_⟩
    simpa using roots
  | eval value =>
    obtain ⟨_, _, newValue, rfl, atValue, rfl, rfl⟩ := Dialogue.holds_bind.mp holds
    refine ⟨rfl, ?_⟩
    simpa using Expr.RebuiltAll.singleton (Expr.rebuilt_of_holds atValue)
  | assign target value =>
    simp only [rebuild, Dialogue.holds_bind, Dialogue.pure_eq, Dialogue.holds_done] at holds
    obtain ⟨_, _, newTarget, rfl, atTarget, _, _, newValue, rfl, atValue, rfl, rfl⟩ := holds
    refine ⟨rfl, ?_⟩
    rw [List.append_nil]
    exact .cons (Expr.rebuilt_of_holds atTarget) (.singleton (Expr.rebuilt_of_holds atValue))
  | ifThen condition yes inYes =>
    simp only [rebuild, Dialogue.holds_bind, Dialogue.pure_eq, Dialogue.holds_done] at holds
    obtain ⟨_, _, newCondition, rfl, atCondition, _, _, newYes, rfl, atYes, rfl, rfl⟩ := holds
    obtain ⟨sameYes, rootsYes⟩ := keeps_of_each (fun stmt member _ _ => inYes stmt member) atYes
    refine ⟨by simp only [blank, sameYes], ?_⟩
    rw [roots_ifThen, roots_ifThen, List.append_nil]
    exact .cons (Expr.rebuilt_of_holds atCondition) rootsYes
  | ifElse condition yes no inYes inNo =>
    simp only [rebuild, Dialogue.holds_bind, Dialogue.pure_eq, Dialogue.holds_done] at holds
    obtain ⟨_, _, newCondition, rfl, atCondition, _, _, newYes, rfl, atYes, _, _, newNo, rfl, atNo,
      rfl, rfl⟩ := holds
    obtain ⟨sameYes, rootsYes⟩ := keeps_of_each (fun stmt member _ _ => inYes stmt member) atYes
    obtain ⟨sameNo, rootsNo⟩ := keeps_of_each (fun stmt member _ _ => inNo stmt member) atNo
    refine ⟨by simp only [blank, sameYes, sameNo], ?_⟩
    rw [roots_ifElse, roots_ifElse, List.append_nil]
    exact .cons (Expr.rebuilt_of_holds atCondition) (rootsYes.append rootsNo)
  | loop condition body inBody =>
    simp only [rebuild, Dialogue.holds_bind, Dialogue.pure_eq, Dialogue.holds_done] at holds
    obtain ⟨_, _, newCondition, rfl, atCondition, _, _, newBody, rfl, atBody, rfl, rfl⟩ := holds
    obtain ⟨sameBody, rootsBody⟩ := keeps_of_each (fun stmt member _ _ => inBody stmt member) atBody
    refine ⟨by simp only [blank, sameBody], ?_⟩
    rw [roots_loop, roots_loop, List.append_nil]
    exact .cons (Expr.rebuilt_of_holds atCondition) rootsBody
  | block body inBody =>
    obtain ⟨_, _, newBody, rfl, atBody, rfl, rfl⟩ := Dialogue.holds_bind.mp holds
    obtain ⟨sameBody, rootsBody⟩ := keeps_of_each (fun stmt member _ _ => inBody stmt member) atBody
    refine ⟨by simp only [blank, sameBody], ?_⟩
    rw [roots_block, roots_block, List.append_nil]
    exact rootsBody
  | brk | cont | discard =>
    obtain ⟨rfl, rfl⟩ := holds
    exact ⟨rfl, .nil⟩

end Stmt

/-- The dialogue of a body goes through exchanges that visit it. -/
theorem Block.visited_of_holds {owner : FunctionId} {body result : Block} {record : List Exchange}
    (holds : (Stmt.rebuildAll Dialogue.asking owner body).Holds record result) :
    body.Visited owner record result := by
  obtain ⟨form, roots⟩ := Stmt.keeps_of_each (fun _ _ _ _ => Stmt.keeps_of_holds) holds
  exact ⟨form, roots, body.nodesOfAll_roots ▸ roots.covered⟩

/-! ## Declarations -/

namespace Global

/-- What becomes of a global declaration after some exchanges. -/
inductive Rebuilt : Global → List Exchange → Option Global → Prop
  | struct (type : TypeId) : Rebuilt (.struct type) [] (some (.struct type))
  | kept (id : VariableId) : Rebuilt (.var id) [⟨.keeps id, true⟩] (some (.var id))
  | removed (id : VariableId) : Rebuilt (.var id) [⟨.keeps id, false⟩] none
  | prototype (function replacement : FunctionId) :
      Rebuilt (.prototype function) [⟨.prototype function, replacement⟩]
        (some (.prototype replacement))
  | entered {function : FunctionId} {body visited : Block} {record : List Exchange}
      (replacement : FunctionId) (newBody : Block) : body.Visited function record visited →
        Rebuilt (.definition function body)
          (⟨.enters function, true⟩ :: record ++
            [⟨.definition function visited, (replacement, newBody)⟩])
          (some (.definition replacement newBody))
  | skipped (function replacement : FunctionId) (body newBody : Block) :
      Rebuilt (.definition function body)
        [⟨.enters function, false⟩, ⟨.definition function body, (replacement, newBody)⟩]
        (some (.definition replacement newBody))

/-- What becomes of global declarations, first to last. -/
inductive RebuiltAll : List Global → List Exchange → List Global → Prop
  | nil : RebuiltAll [] [] []
  | cons {global : Global} {rest results : List Global} {first others : List Exchange}
      {result : Option Global} : Rebuilt global first result → RebuiltAll rest others results →
        RebuiltAll (global :: rest) (first ++ others) (result.toList ++ results)

/-- The dialogue of a declaration goes through the exchanges of the relation. -/
theorem rebuilt_of_holds {global : Global} {record : List Exchange} {result : Option Global}
    (holds : (global.rebuild Dialogue.asking).Holds record result) :
    Rebuilt global record result := by
  cases global with
  | struct type =>
    obtain ⟨rfl, rfl⟩ := holds
    exact .struct type
  | var id =>
    obtain ⟨kept, _, rfl, rfl, rfl⟩ := holds
    cases kept with
    | true => exact .kept id
    | false => exact .removed id
  | prototype function =>
    obtain ⟨replacement, _, rfl, rfl, rfl⟩ := holds
    exact .prototype function replacement
  | definition function body =>
    simp only [rebuild, Dialogue.asking_enters, Dialogue.ask_bind, Dialogue.done_bind,
      Dialogue.holds_ask] at holds
    obtain ⟨entered, _, rfl, inside⟩ := holds
    cases entered with
    | true =>
      obtain ⟨record, _, visited, rfl, atBody, ⟨replacement, newBody⟩, _, rfl, rfl, rfl⟩ :=
        Dialogue.holds_bind.mp inside
      exact .entered replacement newBody (Block.visited_of_holds atBody)
    | false =>
      obtain ⟨⟨replacement, newBody⟩, _, rfl, rfl, rfl⟩ := inside
      exact .skipped function replacement body newBody

/-- So does that of several declarations. -/
theorem rebuiltAll_of_holds {globals results : List Global} {record : List Exchange}
    (holds : (rebuildAll Dialogue.asking globals).Holds record results) :
    RebuiltAll globals record results := by
  induction globals generalizing record results with
  | nil =>
    obtain ⟨rfl, rfl⟩ := holds
    exact .nil
  | cons global rest inductionHypothesis =>
    simp only [rebuildAll, Dialogue.holds_bind, Dialogue.pure_eq, Dialogue.holds_done] at holds
    obtain ⟨first, _, result, rfl, atFirst, others, _, results, rfl, atOthers, rfl, rfl⟩ := holds
    rw [List.append_nil]
    exact .cons (rebuilt_of_holds atFirst) (inductionHypothesis atOthers)

end Global

/-! ## Answers that depend on the question alone -/

namespace Rebuilder

/-- What hooks that only compute put for the calls and mentions in the body of a function. -/
def change (hooks : Rebuilder Id) (owner : FunctionId) : Substitution where
  call := hooks.call owner
  symbol := hooks.symbol owner

/-- What becomes of a declaration with hooks that only compute. -/
def apply (hooks : Rebuilder Id) : Global → Option Global
  | .struct type => some (.struct type)
  | .var id => bif hooks.keeps id then some (.var id) else none
  | .prototype function => some (.prototype (hooks.prototype function))
  | .definition function body =>
    let body := bif hooks.enters function then body.subst (hooks.change function) else body
    some (.definition (hooks.definition function body).1 (hooks.definition function body).2)

end Rebuilder

section Computed

variable (hooks : Rebuilder Id) (owner : FunctionId)

/-- Hooks that only compute substitute in several expressions, if they do in each of them. -/
theorem Expr.rebuildAll_eq_substAll_of_each {args : List Expr}
    (each : ∀ arg ∈ args, arg.rebuild hooks owner = arg.subst (hooks.change owner)) :
    rebuildAll hooks owner args = substAll (hooks.change owner) args := by
  induction args with
  | nil => rfl
  | cons arg args inductionHypothesis =>
    rw [List.forall_mem_cons] at each
    simp only [rebuildAll, substAll, each.1, inductionHypothesis each.2]
    rfl

/-- Hooks that only compute substitute in an expression. -/
theorem Expr.rebuild_eq_subst (expr : Expr) :
    expr.rebuild hooks owner = expr.subst (hooks.change owner) := by
  induction expr with
  | const | var => rfl
  | field base position inBase => simp only [rebuild, subst, inBase]; rfl
  | index base position inBase inPosition => simp only [rebuild, subst, inBase, inPosition]; rfl
  | unary op operand inOperand => simp only [rebuild, subst, inOperand]; rfl
  | binary op left right inLeft inRight => simp only [rebuild, subst, inLeft, inRight]; rfl
  | construct type args inArgs =>
    simp only [rebuild, subst, rebuildAll_eq_substAll_of_each hooks owner inArgs]
    rfl
  | call callee args inArgs =>
    simp only [rebuild, subst, rebuildAll_eq_substAll_of_each hooks owner inArgs]
    rfl
  | sample sampler coordinates inSampler inCoordinates =>
    simp only [rebuild, subst, inSampler, inCoordinates]
    rfl
  | addressOf operand inOperand => simp only [rebuild, subst, inOperand]; rfl

/-- So they do in an expression that may be absent. -/
theorem Expr.rebuildOption_eq_map (value : Option Expr) :
    rebuildOption hooks owner value = value.map (subst (hooks.change owner)) := by
  cases value with
  | none => rfl
  | some value =>
    simp only [rebuildOption, rebuild_eq_subst]
    rfl

/-- Hooks that only compute substitute in several statements, if they do in each of them. -/
theorem Stmt.rebuildAll_eq_substAll_of_each {stmts : List Stmt}
    (each : ∀ stmt ∈ stmts, stmt.rebuild hooks owner = stmt.subst (hooks.change owner)) :
    rebuildAll hooks owner stmts = substAll (hooks.change owner) stmts := by
  induction stmts with
  | nil => rfl
  | cons stmt stmts inductionHypothesis =>
    rw [List.forall_mem_cons] at each
    simp only [rebuildAll, substAll, each.1, inductionHypothesis each.2]
    rfl

/-- Hooks that only compute substitute in a statement. -/
theorem Stmt.rebuild_eq_subst (stmt : Stmt) :
    stmt.rebuild hooks owner = stmt.subst (hooks.change owner) := by
  induction stmt with
  | declare | ret => simp only [rebuild, subst, Expr.rebuildOption_eq_map]; rfl
  | eval | assign => simp only [rebuild, subst, Expr.rebuild_eq_subst]; rfl
  | ifThen condition yes inYes =>
    simp only [rebuild, subst, Expr.rebuild_eq_subst,
      rebuildAll_eq_substAll_of_each hooks owner inYes]
    rfl
  | ifElse condition yes no inYes inNo =>
    simp only [rebuild, subst, Expr.rebuild_eq_subst,
      rebuildAll_eq_substAll_of_each hooks owner inYes,
      rebuildAll_eq_substAll_of_each hooks owner inNo]
    rfl
  | loop condition body inBody =>
    simp only [rebuild, subst, Expr.rebuild_eq_subst,
      rebuildAll_eq_substAll_of_each hooks owner inBody]
    rfl
  | block body inBody =>
    simp only [rebuild, subst, rebuildAll_eq_substAll_of_each hooks owner inBody]
    rfl
  | brk | cont | discard => rfl

/-- So they substitute in a body. -/
theorem Block.rebuild_eq_subst (body : Block) :
    Stmt.rebuildAll hooks owner body = body.subst (hooks.change owner) :=
  Stmt.rebuildAll_eq_substAll_of_each hooks owner fun stmt _ => stmt.rebuild_eq_subst hooks owner

/-- Hooks that only compute change a declaration by themselves. -/
theorem Global.rebuild_eq_apply (global : Global) : global.rebuild hooks = hooks.apply global := by
  cases global with
  | struct | prototype => rfl
  | var id =>
    simp only [Global.rebuild, Rebuilder.apply, bind, pure]
    cases (hooks.keeps id : Bool) <;> rfl
  | definition function body =>
    simp only [Global.rebuild, Rebuilder.apply, Block.rebuild_eq_subst, bind, pure]
    cases (hooks.enters function : Bool) <;> rfl

/-- Hooks that only compute change the declarations one by one. -/
theorem Global.rebuildAll_eq_filterMap (globals : List Global) :
    rebuildAll hooks globals = globals.filterMap hooks.apply := by
  induction globals with
  | nil => rfl
  | cons global rest inductionHypothesis =>
    simp only [rebuildAll, rebuild_eq_apply, inductionHypothesis, List.filterMap_cons]
    change (hooks.apply global).toList ++ _ = _
    cases hooks.apply global <;> rfl

/-- The default hooks leave every declaration as it is. -/
theorem Rebuilder.apply_default (global : Global) :
    ({} : Rebuilder Id).apply global = some global := by
  cases global with
  | struct | var | prototype => rfl
  | definition function body =>
    change some (Global.definition function (body.subst {})) = _
    rw [Block.subst_default]

end Computed

/-! ## Runs -/

section Runs

variable {ε σ : Type}

/-- Hooks that only compute never fail, and they leave the state. -/
theorem Global.outcome_rebuildAll_computed (computed : Rebuilder Id) (globals : List Global)
    (start : σ) {hooks : Rebuilder (Stateful ε σ)}
    (same : ∀ question, hooks.ask question = pure (computed.ask question)) :
    (rebuildAll hooks globals).outcome start = (.ok (globals.filterMap computed.apply), start) := by
  rw [← Dialogue.follow_rebuildGlobals, Dialogue.follow_eq_pure same,
    Dialogue.follow_rebuildGlobals, rebuildAll_eq_filterMap]
  rfl

/-- A rebuild asks its hooks about what a walk lists, and about nothing else. If no hook fails,
there is a record of all questions and answers that says what has become of the declarations.
If one fails, its error is the outcome, and its question is the last one. -/
theorem Global.rebuildAll_visits (hooks : Rebuilder (Stateful ε σ)) (globals : List Global)
    (start : σ) :
    (∀ results final, (rebuildAll hooks globals).outcome start = (.ok results, final) →
      ∃ record, RebuiltAll globals record results ∧ hooks.Replies start record final ∧
        (rebuildAll hooks.recording globals).outcome (start, []) =
          (.ok results, final, record.map Exchange.question) ∧
        ∀ computed : Rebuilder Id,
          (∀ exchange ∈ record, exchange.answer = computed.ask exchange.question) →
            results = globals.filterMap computed.apply) ∧
    (∀ error final, (rebuildAll hooks globals).outcome start = (.error error, final) →
      ∃ record question middle,
        (∃ answer rest results, RebuiltAll globals (record ++ ⟨question, answer⟩ :: rest) results) ∧
        hooks.Replies start record middle ∧
        (hooks.ask question).outcome middle = (.error error, final) ∧
        (rebuildAll hooks.recording globals).outcome (start, []) =
          (.error error, final, record.map Exchange.question ++ [question])) ∧
    (∀ computed : Rebuilder Id,
      (rebuildAll (.ofAnswers fun question => pure (computed.ask question) :
          Rebuilder (Stateful ε σ)) globals).outcome start =
        (.ok (globals.filterMap computed.apply), start)) ∧
    (rebuildAll ({} : Rebuilder (Stateful ε σ)) globals).outcome start = (.ok globals, start) := by
  refine ⟨fun results final run => ?_, fun error final run => ?_, fun computed => ?_, ?_⟩
  · rw [← Dialogue.follow_rebuildGlobals] at run
    obtain ⟨record, holds, replies⟩ := Dialogue.outcome_eq_ok_iff.mp run
    refine ⟨record, rebuiltAll_of_holds holds, replies, ?_, fun computed answers => ?_⟩
    · rw [← Dialogue.follow_rebuildGlobals]
      exact Dialogue.outcome_eq_ok_iff.mpr
        ⟨record, holds, Rebuilder.replies_recording.mpr ⟨replies, rfl⟩⟩
    · rw [holds.eq_follow answers, Dialogue.follow_rebuildGlobals, rebuildAll_eq_filterMap]
  · rw [← Dialogue.follow_rebuildGlobals] at run
    obtain ⟨record, question, middle, ⟨answer, rest, results, holds⟩, replies, refused⟩ :=
      Dialogue.outcome_eq_error_iff.mp run
    refine ⟨record, question, middle, ⟨answer, rest, results, rebuiltAll_of_holds holds⟩, replies,
      refused, ?_⟩
    rw [← Dialogue.follow_rebuildGlobals]
    refine Dialogue.outcome_eq_error_iff.mpr ⟨record, question,
      (middle, record.map Exchange.question), ⟨answer, rest, results, holds⟩,
      Rebuilder.replies_recording.mpr ⟨replies, rfl⟩, ?_⟩
    rw [Rebuilder.recording_outcome, refused]
  · exact outcome_rebuildAll_computed computed globals start fun question =>
      Rebuilder.ask_ofAnswers _ question
  · have unchanged : globals.filterMap ({} : Rebuilder Id).apply = globals := by
      rw [funext Rebuilder.apply_default, List.filterMap_some]
    have same (question : Question) : ({} : Rebuilder (Stateful ε σ)).ask question =
        pure (({} : Rebuilder Id).ask question) := by
      cases question <;> rfl
    rw [outcome_rebuildAll_computed {} globals start same, unchanged]

-- The arguments of a call come before it, and the questions tell what has become of them.
example : (Global.rebuildAll ({ symbol := fun _ _ => pure (.const (.int 1)) } :
      Rebuilder (Stateful Unit Unit)).recording
    [.definition ⟨0⟩ [.eval (.call ⟨1⟩ [.call ⟨2⟩ [.var ⟨3⟩], .var ⟨4⟩])]]).outcome ((), []) =
      (.ok [.definition ⟨0⟩
          [.eval (.call ⟨1⟩ [.call ⟨2⟩ [.const (.int 1)], .const (.int 1)])]], (),
        [.enters ⟨0⟩, .symbol ⟨0⟩ ⟨3⟩, .call ⟨0⟩ ⟨2⟩ [.const (.int 1)], .symbol ⟨0⟩ ⟨4⟩,
          .call ⟨0⟩ ⟨1⟩ [.call ⟨2⟩ [.const (.int 1)], .const (.int 1)],
          .definition ⟨0⟩
            [.eval (.call ⟨1⟩ [.call ⟨2⟩ [.const (.int 1)], .const (.int 1)])]]) := rfl

end Runs

end ShaderPipeline
