import ShaderPipeline.Proofs.Semantics.Eval
import ShaderPipeline.Proofs.Tree

/-!
# Simulation of bodies

If the variables and the calls of two settings correspond, so do expressions that
differ by a substitution. `Follows` relates blocks that differ in their
expressions and in statements that are replaced as a whole, and from what the
replaced statements do it follows what the blocks do. Entering and leaving a call
are simulated as well, so what remains for two programs is an induction on fuel.
-/

namespace ShaderPipeline

namespace Coupling

/-- The variables and the calls of two settings correspond, one of them under a substitution. -/
structure Settings (coupling : Coupling) (setting changed : Setting) (change : Substitution)
    (names : VariableId → Prop) (callees : FunctionId → Prop) : Prop where
  interp : changed.interp = setting.interp
  least : setting.fuel ≤ changed.fuel
  most : coupling.lags ∨ changed.fuel = setting.fuel
  symbol : ∀ id, names id → coupling.Simulates (Always coupling.Operands)
    (setting.eval (.var id)) (changed.eval (change.symbol id))
  call : ∀ callee args others, callees callee →
    coupling.Simulates (Always (List.Forall₂ coupling.Passes)) (setting.evalAll args)
      (changed.evalAll others) →
    coupling.Simulates (Always coupling.Operands) (setting.eval (.call callee args))
      (changed.eval (change.call callee others))

variable {coupling : Coupling} {setting changed : Setting} {change : Substitution}
  {names : VariableId → Prop} {callees : FunctionId → Prop}

/-! ## Expressions -/

/-- Operands that stand for the same have the same value. -/
theorem Simulates.load {first second : Run Operand}
    (simulates : coupling.Simulates (Always coupling.Operands) first second) :
    coupling.Simulates (Always Eq) (first >>= Run.load) (second >>= Run.load) :=
  simulates.andThen fun _ _ operands => operands.load

/-- Runs that go on from the values of related operands simulate one another. -/
theorem Simulates.thenLoad {α β : Type} {first second : Run Operand} {next : Value → Run α}
    {goes : Value → Run β} {after : α → β → Store → Store → Prop}
    (begins : coupling.Simulates (Always coupling.Operands) first second)
    (continues : ∀ value, coupling.Simulates after (next value) (goes value)) :
    coupling.Simulates after (first >>= fun operand => Run.load operand >>= next)
      (second >>= fun operand => Run.load operand >>= goes) :=
  begins.andThen fun _ _ operands => operands.load.thenSame continues

/-- The same value stands for itself. -/
theorem simulates_value {value : Value} :
    coupling.Simulates (Always coupling.Operands) (pure (.value value)) (pure (.value value)) :=
  simulates_pure fun _ _ _ => .value value

/-- Arguments are simulated one after the other. -/
theorem simulates_evalAll {args others : List Expr}
    (each : List.Forall₂ (fun arg other => coupling.Simulates (Always coupling.Operands)
      (setting.eval arg) (changed.eval other)) args others) :
    coupling.Simulates (Always (List.Forall₂ coupling.Passes)) (setting.evalAll args)
      (changed.evalAll others) := by
  induction each with
  | nil =>
    simp only [Setting.evalAll]
    exact simulates_pure fun _ _ _ => .nil
  | cons head _ inductionHypothesis =>
    simp only [Setting.evalAll]
    refine head.andThen fun operand other operands => ?_
    refine operands.load.thenSame fun value => ?_
    refine inductionHypothesis.andThen fun passed others passes => ?_
    exact simulates_pure fun _ _ _ => .cons ⟨operands.place?, rfl⟩ passes

/-- Arguments that stand for the same have the same values. -/
theorem Passes.values {args others : List Passed}
    (passes : List.Forall₂ coupling.Passes args others) :
    others.map Passed.value = args.map Passed.value := by
  induction passes with
  | nil => rfl
  | cons head _ inductionHypothesis =>
    rw [List.map_cons, List.map_cons, head.value, inductionHypothesis]

/-- An expression is simulated by the substituted one. -/
theorem Settings.eval (settings : coupling.Settings setting changed change names callees)
    {expr : Expr} (uses : expr.Every (Expr.Uses names callees fun _ => False)) :
    coupling.Simulates (Always coupling.Operands) (setting.eval expr)
      (changed.eval (expr.subst change)) := by
  have all {args : List Expr} (inArgs : ∀ arg ∈ args,
      coupling.Simulates (Always coupling.Operands) (setting.eval arg)
        (changed.eval (arg.subst change))) :
      coupling.Simulates (Always (List.Forall₂ coupling.Passes)) (setting.evalAll args)
        (changed.evalAll (Expr.substAll change args)) := by
    rw [Expr.substAll_eq_map]
    exact simulates_evalAll (List.forall₂_map_right_iff.mpr (List.forall₂_same.mpr inArgs))
  induction expr with
  | const value =>
    simp only [Expr.subst, Setting.eval]
    exact simulates_value
  | var id => exact settings.symbol id (Expr.every_var.mp uses)
  | field base position inBase =>
    simp only [Expr.subst, Setting.eval]
    refine (inBase (Expr.every_field.mp uses).2).andThen fun _ _ operands => ?_
    exact simulates_pure fun _ _ _ => operands.part position
  | index base position inBase inPosition =>
    obtain ⟨-, usesBase, usesPosition⟩ := Expr.every_index.mp uses
    simp only [Expr.subst, Setting.eval]
    refine (inBase usesBase).andThen fun _ _ bases => ?_
    refine (inPosition usesPosition).thenLoad fun value => ?_
    exact simulates_pure fun _ _ _ => bases.element _
  | unary op operand inOperand =>
    simp only [Expr.subst, Setting.eval, settings.interp]
    refine (inOperand (Expr.every_unary.mp uses).2).thenLoad fun value => ?_
    exact simulates_value
  | binary op left right inLeft inRight =>
    obtain ⟨-, usesLeft, usesRight⟩ := Expr.every_binary.mp uses
    simp only [Expr.subst, Setting.eval, settings.interp]
    refine (inLeft usesLeft).thenLoad fun value => ?_
    cases op.decided value with
    | some decided => exact simulates_value
    | none =>
      refine (inRight usesRight).thenLoad fun value => ?_
      exact simulates_value
  | construct type args inArgs =>
    simp only [Expr.subst, Setting.eval, settings.interp]
    obtain ⟨-, usesArgs⟩ := Expr.every_construct.mp uses
    refine (all fun arg member => inArgs arg member (usesArgs arg member)).andThen
      fun passed others passes => ?_
    rw [Passes.values passes]
    exact simulates_value
  | call callee args inArgs =>
    obtain ⟨called, usesArgs⟩ := Expr.every_call.mp uses
    exact settings.call callee args _ called
      (all fun arg member => inArgs arg member (usesArgs arg member))
  | sample sampler coordinates inSampler inCoordinates =>
    obtain ⟨-, usesSampler, usesCoordinates⟩ := Expr.every_sample.mp uses
    simp only [Expr.subst, Setting.eval, settings.interp]
    refine (inSampler usesSampler).thenLoad fun sampled => ?_
    refine (inCoordinates usesCoordinates).thenLoad fun value => ?_
    exact simulates_value
  | addressOf operand => exact absurd (Expr.every_addressOf.mp uses).1 id

/-! ## Statements -/

/-- Control goes on in the same way, and what is returned is related. -/
inductive Flows (returns : Value → Value → Store → Store → Prop) :
    Flow → Flow → Store → Store → Prop where
  | next {store other : Store} : Flows returns .next .next store other
  | brk {store other : Store} : Flows returns .brk .brk store other
  | cont {store other : Store} : Flows returns .cont .cont store other
  | ret {value result : Value} {store other : Store} (holds : returns value result store other) :
      Flows returns (.ret value) (.ret result) store other

section Follows

variable (exprs : Expr → Expr → Prop) (declares : VariableId → Prop)
  (returning : Option Expr → Prop) (replaces : Stmt → Block → Prop)

/-- Two blocks that differ in their expressions and in statements that are replaced as a whole. -/
inductive Follows : Block → Block → Prop where
  | nil : Follows [] []
  | replaced {stmt : Stmt} {news rest after : Block} (replaced : replaces stmt news)
      (tail : Follows rest after) : Follows (stmt :: rest) (news ++ after)
  | declare {id : VariableId} {initial changed : Option Expr} {rest after : Block}
      (declared : declares id) (initials : Option.Rel exprs initial changed)
      (tail : Follows rest after) :
      Follows (.declare id initial :: rest) (.declare id changed :: after)
  | eval {value changed : Expr} {rest after : Block} (values : exprs value changed)
      (tail : Follows rest after) : Follows (.eval value :: rest) (.eval changed :: after)
  | assign {target value moved changed : Expr} {rest after : Block} (targets : exprs target moved)
      (values : exprs value changed) (tail : Follows rest after) :
      Follows (.assign target value :: rest) (.assign moved changed :: after)
  | ifThen {condition changed : Expr} {yes other rest after : Block}
      (conditions : exprs condition changed) (inner : Follows yes other)
      (tail : Follows rest after) :
      Follows (.ifThen condition yes :: rest) (.ifThen changed other :: after)
  | ifElse {condition changed : Expr} {yes no otherYes otherNo rest after : Block}
      (conditions : exprs condition changed) (inYes : Follows yes otherYes)
      (inNo : Follows no otherNo) (tail : Follows rest after) :
      Follows (.ifElse condition yes no :: rest) (.ifElse changed otherYes otherNo :: after)
  | loop {condition changed : Expr} {body other rest after : Block}
      (conditions : exprs condition changed) (inner : Follows body other)
      (tail : Follows rest after) :
      Follows (.loop condition body :: rest) (.loop changed other :: after)
  | block {body other rest after : Block} (inner : Follows body other)
      (tail : Follows rest after) : Follows (.block body :: rest) (.block other :: after)
  | ret {value changed : Option Expr} {rest after : Block} (allowed : returning value)
      (values : Option.Rel exprs value changed) (tail : Follows rest after) :
      Follows (.ret value :: rest) (.ret changed :: after)
  | brk {rest after : Block} (tail : Follows rest after) : Follows (.brk :: rest) (.brk :: after)
  | cont {rest after : Block} (tail : Follows rest after) : Follows (.cont :: rest) (.cont :: after)
  | discard {rest after : Block} (tail : Follows rest after) :
      Follows (.discard :: rest) (.discard :: after)

variable {exprs declares returning replaces}

/-- A substituted block follows the block. -/
theorem follows_subst {change : Substitution} {body : Block}
    (roots : ∀ root ∈ body.roots, exprs root (root.subst change))
    (declared : ∀ id initial, .declare id initial ∈ body.stmts → declares id)
    (returned : ∀ value, .ret value ∈ body.stmts → returning value) :
    Follows exprs declares returning replaces body (Block.subst body change) := by
  let Turns (stmt : Stmt) : Prop :=
    (∀ root ∈ stmt.roots, exprs root (root.subst change)) →
    (∀ id initial, .declare id initial ∈ stmt.nodes → declares id) →
    (∀ value, .ret value ∈ stmt.nodes → returning value) →
    ∀ {rest after : Block}, Follows exprs declares returning replaces rest after →
      Follows exprs declares returning replaces (stmt :: rest) (stmt.subst change :: after)
  have nested {stmts : Block} (each : ∀ stmt ∈ stmts, Turns stmt)
      (roots : ∀ root ∈ stmts.roots, exprs root (root.subst change))
      (declared : ∀ id initial, .declare id initial ∈ Stmt.nodesOfAll stmts → declares id)
      (returned : ∀ value, .ret value ∈ Stmt.nodesOfAll stmts → returning value) :
      Follows exprs declares returning replaces stmts (Stmt.substAll change stmts) := by
    induction stmts with
    | nil => exact .nil
    | cons stmt stmts inductionHypothesis =>
      simp only [List.forall_mem_cons, Block.roots_cons, Stmt.nodesOfAll, List.mem_append, or_imp,
        forall_and] at each roots declared returned
      exact each.1 roots.1 declared.1 returned.1
        (inductionHypothesis each.2 roots.2 declared.2 returned.2)
  have optional {value : Option Expr} (all : ∀ root ∈ value.toList, exprs root (root.subst change)) :
      Option.Rel exprs value (value.map (Expr.subst change)) := by
    cases value with
    | none => exact .none
    | some value => exact .some (all value (by simp))
  have single (stmt : Stmt) : Turns stmt := by
    induction stmt with
    | declare id initial =>
      intro roots declared _ rest after tail
      exact .declare (declared id initial (by simp [Stmt.nodes])) (optional (by simpa using roots)) tail
    | eval value => exact fun roots _ _ _ _ tail => .eval (by simpa using roots) tail
    | assign target value =>
      intro roots _ _ rest after tail
      simp only [Stmt.roots_assign, List.forall_mem_cons] at roots
      exact .assign roots.1 roots.2.1 tail
    | ifThen condition yes inYes =>
      intro roots declared returned rest after tail
      rw [Stmt.roots_ifThen, List.forall_mem_cons] at roots
      simp only [Stmt.nodes, List.mem_cons, reduceCtorEq, false_or] at declared returned
      exact .ifThen roots.1 (nested inYes roots.2 declared returned) tail
    | ifElse condition yes no inYes inNo =>
      intro roots declared returned rest after tail
      rw [Stmt.roots_ifElse, List.forall_mem_cons, List.forall_mem_append] at roots
      simp only [Stmt.nodes, List.mem_cons, List.mem_append, reduceCtorEq, false_or, or_imp,
        forall_and] at declared returned
      exact .ifElse roots.1 (nested inYes roots.2.1 declared.1 returned.1)
        (nested inNo roots.2.2 declared.2 returned.2) tail
    | loop condition body inBody =>
      intro roots declared returned rest after tail
      rw [Stmt.roots_loop, List.forall_mem_cons] at roots
      simp only [Stmt.nodes, List.mem_cons, reduceCtorEq, false_or] at declared returned
      exact .loop roots.1 (nested inBody roots.2 declared returned) tail
    | block body inBody =>
      intro roots declared returned rest after tail
      rw [Stmt.roots_block] at roots
      simp only [Stmt.nodes, List.mem_cons, reduceCtorEq, false_or] at declared returned
      exact .block (nested inBody roots declared returned) tail
    | ret value =>
      intro roots _ returned rest after tail
      exact .ret (returned value (by simp [Stmt.nodes])) (optional (by simpa using roots)) tail
    | brk => exact fun _ _ _ _ _ tail => .brk tail
    | cont => exact fun _ _ _ _ _ tail => .cont tail
    | discard => exact fun _ _ _ _ _ tail => .discard tail
  exact nested (fun stmt _ => single stmt) roots declared returned

end Follows

section Statements

variable {returns : Value → Value → Store → Store → Prop}

/-- Loops are simulated round by round. -/
theorem simulates_iterate {test otherTest : Run Bool} {body otherBody : Run Flow}
    (tests : coupling.Simulates (Always Eq) test otherTest)
    (bodies : coupling.Simulates (Flows returns) body otherBody) {fuel more : Nat}
    (least : fuel ≤ more) (most : coupling.lags ∨ more = fuel) :
    coupling.Simulates (Flows returns) (Run.iterate test body fuel)
      (Run.iterate otherTest otherBody more) := by
  induction fuel generalizing more with
  | zero =>
    rcases most with lags | rfl
    · exact simulates_lag lags _
    · exact simulates_exhausted
  | succ fuel inductionHypothesis =>
    obtain ⟨more, rfl⟩ : ∃ smaller, more = smaller + 1 := Nat.exists_eq_add_one.mpr (by omega)
    have again := @inductionHypothesis more (by omega) (most.imp_right (by omega))
    simp only [Run.iterate]
    refine tests.thenSame fun holds => ?_
    cases holds with
    | false => exact simulates_pure fun _ _ _ => .next
    | true =>
      refine bodies.bind fun flow result store other kept flows => ?_
      cases flows with
      | next => exact again store other kept
      | cont => exact again store other kept
      | brk => exact .done kept .next
      | ret holds => exact .done kept (.ret holds)

/-- Statements that follow one another are simulated one after the other. -/
theorem Simulates.seq {first second : Run Flow} {rest after : Block}
    (begins : coupling.Simulates (Flows returns) first second)
    (continues : coupling.Simulates (Flows returns) (setting.execAll rest) (changed.execAll after)) :
    coupling.Simulates (Flows returns)
      (first >>= fun flow => match flow with
        | .next => setting.execAll rest
        | flow => pure flow)
      (second >>= fun flow => match flow with
        | .next => changed.execAll after
        | flow => pure flow) := by
  refine begins.bind fun flow result store other kept flows => ?_
  cases flows with
  | next => exact continues store other kept
  | brk => exact .done kept .brk
  | cont => exact .done kept .cont
  | ret holds => exact .done kept (.ret holds)

/-- Blocks simulate one another if their first statements and their rests do. -/
theorem Simulates.step {stmt other : Stmt} {rest after : Block}
    (begins : coupling.Simulates (Flows returns) (setting.exec stmt) (changed.exec other))
    (continues : coupling.Simulates (Flows returns) (setting.execAll rest) (changed.execAll after)) :
    coupling.Simulates (Flows returns) (setting.execAll (stmt :: rest))
      (changed.execAll (other :: after)) := by
  simp only [Setting.execAll]
  exact begins.seq continues

end Statements

end Coupling

/-- Two blocks in a row are executed like one. -/
theorem Setting.execAll_append (setting : Setting) (first second : Block) :
    setting.execAll (first ++ second) = setting.execAll first >>= fun flow => match flow with
      | .next => setting.execAll second
      | flow => pure flow := by
  induction first with
  | nil => simp only [List.nil_append, Setting.execAll, Run.pure_bind]
  | cons stmt first inductionHypothesis =>
    simp only [List.cons_append, Setting.execAll, Run.bind_assoc]
    congr 1
    funext flow
    cases flow with
    | next => exact inductionHypothesis
    | brk | cont | ret => rfl

namespace Coupling

variable {coupling : Coupling} {setting changed : Setting}

/-- What is known about the parts of two blocks. -/
structure Parts (coupling : Coupling) (setting changed : Setting) (exprs : Expr → Expr → Prop)
    (declares : VariableId → Prop) (returning : Option Expr → Prop)
    (replaces : Stmt → Block → Prop) (returns : Value → Value → Store → Store → Prop) : Prop where
  least : setting.fuel ≤ changed.fuel
  most : coupling.lags ∨ changed.fuel = setting.fuel
  exprs : ∀ expr other, exprs expr other → coupling.Simulates (Always coupling.Operands)
    (setting.eval expr) (changed.eval other)
  declares : ∀ id, declares id → changed.initial id = setting.initial id ∧ ∀ value,
    coupling.Simulates (Always Eq) (Run.write (setting.locate id) value)
      (Run.write (changed.locate id) value)
  returning : ∀ {expr : Option Expr}, returning expr → ∀ value store other,
    coupling.stores store other → returns value value store other
  replaces : ∀ stmt news, replaces stmt news →
    coupling.Simulates (Flows returns) (setting.exec stmt) (changed.execAll news)

/-- A block is simulated by one that follows it. -/
theorem Parts.execAll {exprs : Expr → Expr → Prop} {declares : VariableId → Prop}
    {returning : Option Expr → Prop} {replaces : Stmt → Block → Prop}
    {returns : Value → Value → Store → Store → Prop}
    (parts : coupling.Parts setting changed exprs declares returning replaces returns)
    {body other : Block} (follows : Follows exprs declares returning replaces body other) :
    coupling.Simulates (Flows returns) (setting.execAll body) (changed.execAll other) := by
  have value {expr other : Expr} (related : exprs expr other) :
      coupling.Simulates (Always Eq) (setting.value expr) (changed.value other) :=
    (parts.exprs expr other related).load
  have next : coupling.Simulates (Flows returns) (pure .next) (pure .next) :=
    simulates_pure fun _ _ _ => .next
  induction follows with
  | nil =>
    simp only [Setting.execAll]
    exact next
  | replaced replaced _ inTail =>
    rw [Setting.execAll, Setting.execAll_append]
    exact (parts.replaces _ _ replaced).seq inTail
  | @declare id initial other rest after declared initials _ inTail =>
    refine Simulates.step ?_ inTail
    obtain ⟨sameInitial, writes⟩ := parts.declares id declared
    simp only [Setting.exec]
    have begins : coupling.Simulates (Always Eq) (setting.declared id initial)
        (changed.declared id other) := by
      cases initials with
      | none => exact simulates_pure fun _ _ _ => sameInitial.symm
      | some related => exact value related
    refine begins.thenSame fun held => ?_
    exact (writes held).andThen fun _ _ _ => next
  | eval values _ inTail =>
    refine Simulates.step ?_ inTail
    simp only [Setting.exec]
    exact (parts.exprs _ _ values).andThen fun _ _ _ => next
  | assign targets values _ inTail =>
    refine Simulates.step ?_ inTail
    simp only [Setting.exec]
    refine (parts.exprs _ _ targets).andThen fun _ _ operands => ?_
    refine (value values).thenSame fun held => ?_
    exact (operands.assign held).andThen fun _ _ _ => next
  | ifThen conditions _ _ inYes inTail =>
    refine Simulates.step ?_ inTail
    simp only [Setting.exec]
    refine (value conditions).thenSame fun held => ?_
    cases held.truth with
    | true => exact inYes
    | false => exact next
  | ifElse conditions _ _ _ inYes inNo inTail =>
    refine Simulates.step ?_ inTail
    simp only [Setting.exec]
    refine (value conditions).thenSame fun held => ?_
    cases held.truth with
    | true => exact inYes
    | false => exact inNo
  | loop conditions _ _ inBody inTail =>
    refine Simulates.step ?_ inTail
    simp only [Setting.exec]
    refine simulates_iterate ?_ inBody parts.least parts.most
    refine (value conditions).thenSame fun held => ?_
    exact simulates_pure fun _ _ _ => rfl
  | block _ _ inBody inTail =>
    refine Simulates.step ?_ inTail
    simp only [Setting.exec]
    exact inBody
  | ret allowed values _ inTail =>
    refine Simulates.step ?_ inTail
    cases values with
    | none =>
      simp only [Setting.exec]
      exact simulates_pure fun store other kept =>
        .ret (parts.returning allowed default store other kept)
    | some related =>
      simp only [Setting.exec]
      refine (value related).thenSame fun held => ?_
      exact simulates_pure fun store other kept =>
        .ret (parts.returning allowed held store other kept)
  | brk _ inTail =>
    refine Simulates.step ?_ inTail
    simp only [Setting.exec]
    exact simulates_pure fun _ _ _ => .brk
  | cont _ inTail =>
    refine Simulates.step ?_ inTail
    simp only [Setting.exec]
    exact simulates_pure fun _ _ _ => .cont
  | discard _ inTail =>
    refine Simulates.step ?_ inTail
    simp only [Setting.exec]
    exact simulates_abort

/-! ## Calls -/

/-- The same parameters with arguments that stand for the same. -/
def Pairs (coupling : Coupling) : List (Param × Passed) → List (Param × Passed) → Prop :=
  List.Forall₂ fun pair other => other.1 = pair.1 ∧ coupling.Passes pair.2 other.2

/-- The same parameters with arguments that stand for the same make pairs. -/
theorem pairs_zip {args others : List Passed} (passes : List.Forall₂ coupling.Passes args others)
    (params : List Param) : coupling.Pairs (params.zip args) (params.zip others) := by
  induction params generalizing args others with
  | nil => exact .nil
  | cons param params inductionHypothesis =>
    cases passes with
    | nil => exact .nil
    | cons head rest => exact .cons ⟨rfl, head⟩ (inductionHypothesis rest)

section Calls

variable {tables changed : Tables} {depth : Nat} {pairs others : List (Param × Passed)}
  {pair other : Param × Passed}

/-- Either both parameters stand for places that correspond, or none stands for a place. -/
theorem aliased_rel (same : other.1 = pair.1 ∧ coupling.Passes pair.2 other.2)
    (reference : changed.isReference pair.1.variableId = tables.isReference pair.1.variableId) :
    Option.Rel coupling.places (tables.aliased pair) (changed.aliased other) := by
  obtain ⟨sameParam, passes⟩ := same
  unfold Tables.aliased
  rw [sameParam, reference]
  split
  · exact passes.place
  · exact .none

/-- Copying an argument in is simulated, if the frames of its parameter correspond. -/
theorem simulates_copyIn (same : other.1 = pair.1 ∧ coupling.Passes pair.2 other.2)
    (reference : changed.isReference pair.1.variableId = tables.isReference pair.1.variableId)
    (frame : coupling.places ⟨.frame depth pair.1.variableId, []⟩
      ⟨.frame depth pair.1.variableId, []⟩) :
    coupling.Simulates (Always Eq) (tables.copyIn depth pair) (changed.copyIn depth other) := by
  have stands := aliased_rel same reference
  simp only [Tables.copyIn, same.1, same.2.value]
  generalize tables.aliased pair = first at stands ⊢
  generalize changed.aliased other = second at stands ⊢
  cases stands with
  | some moves => exact simulates_pure fun _ _ _ => rfl
  | none =>
    cases pair.1.direction with
    | output => exact simulates_pure fun _ _ _ => rfl
    | input | inputOutput => exact simulates_write frame _

/-- Copying an argument back is simulated, if the frames of its parameter correspond. -/
theorem simulates_copyBack (same : other.1 = pair.1 ∧ coupling.Passes pair.2 other.2)
    (reference : changed.isReference pair.1.variableId = tables.isReference pair.1.variableId)
    (frame : coupling.places ⟨.frame depth pair.1.variableId, []⟩
      ⟨.frame depth pair.1.variableId, []⟩) :
    coupling.Simulates (Always Eq) (tables.copyBack depth pair) (changed.copyBack depth other) := by
  have back {place moved : Place} (moves : coupling.places place moved) :
      coupling.Simulates (Always Eq)
        (Run.load (.place ⟨.frame depth pair.1.variableId, []⟩) >>= Run.write place)
        (Run.load (.place ⟨.frame depth pair.1.variableId, []⟩) >>= Run.write moved) := by
    refine (Operands.place frame).load.thenSame fun value => ?_
    exact simulates_write moves value
  have stands := aliased_rel same reference
  have places := same.2.place
  simp only [Tables.copyBack, same.1]
  generalize tables.aliased pair = first at stands ⊢
  generalize changed.aliased other = second at stands ⊢
  generalize pair.2.place = place at places ⊢
  generalize other.2.place = moved at places ⊢
  cases stands with
  | some moves => exact simulates_pure fun _ _ _ => rfl
  | none =>
    cases pair.1.direction with
    | input => exact simulates_pure fun _ _ _ => rfl
    | output | inputOutput =>
      cases places with
      | none => exact simulates_pure fun _ _ _ => rfl
      | some moves => exact back moves

/-- Entering a call is simulated, if the frames of the parameters correspond. -/
theorem simulates_enter (same : coupling.Pairs pairs others)
    (references : ∀ pair ∈ pairs,
      changed.isReference pair.1.variableId = tables.isReference pair.1.variableId)
    (frames : ∀ pair ∈ pairs, coupling.places ⟨.frame depth pair.1.variableId, []⟩
      ⟨.frame depth pair.1.variableId, []⟩) :
    coupling.Simulates (Always Eq) (tables.enter depth pairs) (changed.enter depth others) := by
  induction same with
  | nil => exact simulates_pure fun _ _ _ => rfl
  | cons head _ inductionHypothesis =>
    rw [List.forall_mem_cons] at references frames
    exact (simulates_copyIn head references.1 frames.1).andThen fun _ _ _ =>
      inductionHypothesis references.2 frames.2

/-- Leaving a call is simulated, if the frames of the parameters correspond. -/
theorem simulates_leave (same : coupling.Pairs pairs others)
    (references : ∀ pair ∈ pairs,
      changed.isReference pair.1.variableId = tables.isReference pair.1.variableId)
    (frames : ∀ pair ∈ pairs, coupling.places ⟨.frame depth pair.1.variableId, []⟩
      ⟨.frame depth pair.1.variableId, []⟩) :
    coupling.Simulates (Always Eq) (tables.leave depth pairs) (changed.leave depth others) := by
  induction same with
  | nil => exact simulates_pure fun _ _ _ => rfl
  | cons head _ inductionHypothesis =>
    rw [List.forall_mem_cons] at references frames
    exact (simulates_copyBack head references.1 frames.1).andThen fun _ _ _ =>
      inductionHypothesis references.2 frames.2

end Calls

end Coupling

end ShaderPipeline
