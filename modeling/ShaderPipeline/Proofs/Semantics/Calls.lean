import ShaderPipeline.Proofs.Semantics.Simulation

/-!
# Simulation of calls

Calls of two programs are linked by a relation: which function of the one stands
for which of the other, and what is handed to it in front of the arguments. Linked
functions are twins if their bodies do the same as long as linked calls do, and
from that it follows, by induction on fuel, that linked calls do the same.
-/

namespace ShaderPipeline

namespace Tables

variable {tables : Tables} {depth : Nat}

/-- Entering with more arguments enters with the first ones first. -/
theorem enter_append (first second : List (Param × Passed)) :
    tables.enter depth (first ++ second) =
      tables.enter depth first >>= fun _ => tables.enter depth second := by
  induction first with
  | nil => rfl
  | cons pair first inductionHypothesis =>
    simp only [List.cons_append, enter, inductionHypothesis, Run.bind_assoc]

/-- Leaving a call copies its results back one after the other. -/
theorem leave_append (first second : List (Param × Passed)) :
    tables.leave depth (first ++ second) =
      tables.leave depth first >>= fun _ => tables.leave depth second := by
  induction first with
  | nil => rfl
  | cons pair first inductionHypothesis =>
    simp only [List.cons_append, leave, inductionHypothesis, Run.bind_assoc]

/-- References are not copied. -/
theorem enter_aliased {pairs : List (Param × Passed)}
    (stands : ∀ pair ∈ pairs, (tables.aliased pair).isSome = true) :
    tables.enter depth pairs = pure () := by
  induction pairs with
  | nil => rfl
  | cons pair pairs inductionHypothesis =>
    rw [List.forall_mem_cons] at stands
    obtain ⟨place, isPlace⟩ := Option.isSome_iff_exists.mp stands.1
    simp only [enter, copyIn, isPlace, Run.pure_bind, inductionHypothesis stands.2]

/-- Nothing is copied back where every parameter stands for a place. -/
theorem leave_aliased {pairs : List (Param × Passed)}
    (stands : ∀ pair ∈ pairs, (tables.aliased pair).isSome = true) :
    tables.leave depth pairs = pure () := by
  induction pairs with
  | nil => rfl
  | cons pair pairs inductionHypothesis =>
    rw [List.forall_mem_cons] at stands
    obtain ⟨place, isPlace⟩ := Option.isSome_iff_exists.mp stands.1
    simp only [leave, copyBack, isPlace, Run.pure_bind, inductionHypothesis stands.2]

end Tables

/-- A function without a body never ends. -/
theorem Program.call_absent {program : Program} {function : FunctionId}
    (absent : program.body? function = none) (interp : Interpretation) (fuel depth : Nat)
    (args : List Passed) : program.call interp fuel depth function args = Run.exhausted := by
  cases fuel with
  | zero => rfl
  | succ fuel =>
    rw [call, absent]
    cases program.tables.functions[function.index]? <;> rfl

namespace Coupling

variable {coupling : Coupling} {program other : Program} {floor : Nat}
  {links : FunctionId → FunctionId → List Passed → Prop}

/-- Linked calls do the same. -/
def Invokes (coupling : Coupling) (links : FunctionId → FunctionId → List Passed → Prop)
    (invoke changed : FunctionId → List Passed → Run Value) : Prop :=
  ∀ {function counterpart : FunctionId} {handed : List Passed}, links function counterpart handed →
    ∀ {args others : List Passed}, List.Forall₂ coupling.Passes args others →
      coupling.Simulates (Always Eq) (invoke function args) (changed counterpart (handed ++ others))

/-- The bodies of two functions do the same from some depth on, if linked calls do. The second one
has further parameters in front, for what it is handed. -/
def Bodies (coupling : Coupling) (program other : Program)
    (links : FunctionId → FunctionId → List Passed → Prop) (floor : Nat)
    (signature : Function) (extra : List (Param × Passed)) (body changed : Block) : Prop :=
  ∀ {interp : Interpretation} {fuel more depth : Nat} {pairs others : List (Param × Passed)}
    {invoke invokes : FunctionId → List Passed → Run Value},
    fuel ≤ more → (coupling.lags ∨ more = fuel) → floor ≤ depth → coupling.Pairs pairs others →
    (∀ pair ∈ pairs, pair.1 ∈ signature.params) → coupling.Invokes links invoke invokes →
      coupling.Simulates (Flows (Always Eq))
        ((program.tables.frame interp fuel depth pairs invoke).execAll body)
        ((other.tables.frame interp more depth (extra ++ others) invokes).execAll changed)

/-- Two functions whose calls do the same, if linked calls in their bodies do. -/
inductive Twins (coupling : Coupling) (program other : Program)
    (links : FunctionId → FunctionId → List Passed → Prop) (floor : Nat)
    (function counterpart : FunctionId) (handed : List Passed) : Prop where
  | missing (absent : program.body? function = none)
      (alsoAbsent : other.body? counterpart = none) :
      Twins coupling program other links floor function counterpart handed
  | defined {signature changed : Function} {body rebuilt : Block} {extra : List Param}
      (known : program.tables.functions[function.index]? = some signature)
      (hasBody : program.body? function = some body)
      (otherKnown : other.tables.functions[counterpart.index]? = some changed)
      (otherBody : other.body? counterpart = some rebuilt)
      (params : changed.params = extra ++ signature.params)
      (count : extra.length = handed.length)
      (stands : ∀ pair ∈ extra.zip handed, (other.tables.aliased pair).isSome = true)
      (references : ∀ param ∈ signature.params, other.tables.isReference param.variableId =
        program.tables.isReference param.variableId)
      (frames : ∀ param ∈ signature.params, ∀ depth, floor ≤ depth →
        coupling.places ⟨.frame depth param.variableId, []⟩ ⟨.frame depth param.variableId, []⟩)
      (bodies : coupling.Bodies program other links floor signature (extra.zip handed) body
        rebuilt) :
      Twins coupling program other links floor function counterpart handed

/-- Two programs whose linked functions are twins, and in which a new frame is the same. -/
structure Programs (coupling : Coupling) (program other : Program)
    (links : FunctionId → FunctionId → List Passed → Prop) (floor : Nat) : Prop where
  clear : ∀ {depth : Nat}, floor ≤ depth → ∀ {store changed : Store},
    coupling.stores store changed →
      coupling.stores (program.tables.clear depth store) (other.tables.clear depth changed)
  twins : ∀ {function counterpart : FunctionId} {handed : List Passed},
    links function counterpart handed →
      coupling.Twins program other links floor function counterpart handed

/-- Calls whose bodies flow alike have the same result. -/
theorem Flows.result {flow result : Flow} {store other : Store}
    (flows : Flows (Always Eq) flow result store other) :
    coupling.Simulates (Always Eq) flow.result result.result := by
  cases flows with
  | next => exact simulates_pure fun _ _ _ => rfl
  | brk | cont => exact simulates_exhausted
  | ret holds => exact simulates_pure fun _ _ _ => holds

/-- Bodies that went the same way give the same result. -/
theorem Matches.result {first second : Run Flow} {store other : Store}
    (runs : coupling.Matches (Flows (Always Eq)) (first store) (second other)) :
    coupling.Matches (Always Eq) ((first >>= Flow.result) store)
      ((second >>= Flow.result) other) :=
  runs.bind fun _ _ _ _ kept flows => flows.result _ _ kept

/-- Linked calls do the same. -/
theorem Programs.call (programs : coupling.Programs program other links floor)
    (interp : Interpretation) {fuel more depth : Nat} (least : fuel ≤ more)
    (most : coupling.lags ∨ more = fuel) (deep : floor ≤ depth) :
    coupling.Invokes links (program.call interp fuel depth) (other.call interp more depth) := by
  induction fuel generalizing more depth with
  | zero =>
    intro function counterpart handed _ args others _
    rcases most with lags | rfl
    · exact simulates_lag lags _
    · exact simulates_exhausted
  | succ fuel inductionHypothesis =>
    intro function counterpart handed linked args others passes
    obtain ⟨more, rfl⟩ : ∃ smaller, more = smaller + 1 := Nat.exists_eq_add_one.mpr (by omega)
    have inner := @inductionHypothesis more (depth + 1) (by omega) (most.imp_right (by omega))
      (by omega)
    cases programs.twins linked with
    | missing absent alsoAbsent =>
      rw [Program.call_absent absent, Program.call_absent alsoAbsent]
      exact simulates_exhausted
    | @defined signature changed body rebuilt extra known hasBody otherKnown otherBody params count
        stands references frames bodies =>
      simp only [Program.call, known, hasBody, otherKnown, otherBody, params,
        List.zip_append count, Tables.enter_append, Tables.leave_append,
        Tables.enter_aliased stands, Tables.leave_aliased stands, Run.pure_bind]
      have same := pairs_zip passes signature.params
      have own : ∀ pair ∈ signature.params.zip args, pair.1 ∈ signature.params :=
        fun _ member => List.of_mem_zip member |>.1
      have sameReferences := fun pair member => references _ (own pair member)
      have sameFrames := fun pair member => frames _ (own pair member) depth deep
      have clears : coupling.Simulates (Always Eq) (Run.modify (program.tables.clear depth))
          (Run.modify (other.tables.clear depth)) :=
        fun store changed kept => .done (programs.clear deep kept) rfl
      refine clears.andThen fun _ _ _ => ?_
      refine (simulates_enter same sameReferences sameFrames).andThen fun _ _ _ => ?_
      refine Simulates.bind (bodies (by omega) (most.imp_right (by omega)) deep same own inner)
        fun flow result store changed kept flows => ?_
      exact (simulates_leave same sameReferences sameFrames).andThen
        (fun _ _ _ => flows.result) store changed kept

/-- Blocks that differ by a substitution do the same, if the variables and the calls of their
settings correspond. -/
theorem Settings.execAll {setting changed : Setting} {change : Substitution}
    {names : VariableId → Prop} {callees : FunctionId → Prop}
    (settings : coupling.Settings setting changed change names callees) {body : Block}
    (uses : Block.Every (Expr.Uses names callees fun _ => False) body)
    (declares : ∀ id initial, .declare id initial ∈ body.stmts →
      changed.initial id = setting.initial id ∧
        coupling.places (setting.locate id) (changed.locate id)) :
    coupling.Simulates (Flows (Always Eq)) (setting.execAll body)
      (changed.execAll (Block.subst body change)) := by
  have parts : coupling.Parts setting changed
      (fun expr result => expr.Every (Expr.Uses names callees fun _ => False) ∧
        result = expr.subst change)
      (fun id => changed.initial id = setting.initial id ∧
        coupling.places (setting.locate id) (changed.locate id))
      (fun _ => True) (fun _ _ => False) (Always Eq) := {
    least := settings.least
    most := settings.most
    exprs := fun expr result ⟨usesExpr, isResult⟩ => isResult ▸ settings.eval usesExpr
    declares := fun id ⟨same, moves⟩ => ⟨same, simulates_write moves⟩
    returning := fun _ _ _ _ _ => rfl
    replaces := fun _ _ impossible => impossible.elim }
  exact parts.execAll (follows_subst (fun root own => ⟨uses root own, rfl⟩) declares
    fun _ _ => trivial)

end Coupling

end ShaderPipeline
