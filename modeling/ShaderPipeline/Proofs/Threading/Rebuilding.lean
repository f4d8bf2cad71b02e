import ShaderPipeline.Proofs.Evolution
import ShaderPipeline.Proofs.Rebuild.Asked

/-!
# Threading as two rebuilds

Threading a category through a program is two rebuilds of its tree. The hooks of the
first one replace functions when they are first asked for and pass the instance on in
calls; those of the second one read gathered variables from the instance. The hooks are
asked about one call after the other, and `threadCalls` makes all replacements that a
body needs and substitutes once. Both come to the same, because what is replaced once
stays `Settled`: asking for it again changes nothing, and the call that was put in
first is the one that the substitution puts in at last.
-/

namespace ShaderPipeline

/-! ## The hooks -/

namespace Threading

/-- Asks for the replacement of a function. -/
def replace (plan : Plan) (id : FunctionId) : StateT Threading Result FunctionId :=
  fun state => state.update plan id

@[simp] theorem run_replace (plan : Plan) (id : FunctionId) (state : Threading) :
    (replace plan id).run state = state.update plan id := rfl

/-- The hooks that replace the dependent functions and pass the instance on. -/
def hooks (plan : Plan) : Rebuilder (StateT Threading Result) where
  prototype function := do
    if (← get).concerns plan function then replace plan function else return function
  definition function body := do
    let isMain := (← (← get).tables.functionAt function).isMain
    if (← get).concerns plan function then
      let copy ← replace plan function
      let state ← get
      let body ← if isMain then plan.wrapMain state.tables state.locals copy body else pure body
      return (copy, body)
    else
      return (function, body)
  call owner callee args := do
    if plan.dependents.contains callee then
      let copy ← replace plan callee
      let caller ← replace plan owner
      let state ← get
      let holder ← Plan.instanceOf plan.toGathering state.tables state.locals caller
      return .call copy (.var holder :: args)
    else
      return .call callee args

end Threading

/-- The hooks that read gathered variables from the instance of the function they are in. -/
def Plan.reading (gathering : Gathering) (tables : Tables) (locals : Scoped VariableId) :
    Rebuilder Result where
  symbol owner id := do
    if gathering.members.contains id then
      return access gathering (← instanceOf gathering tables locals owner) id
    else
      return .var id

namespace Threading

variable {plan : Plan} {state next : Threading} {id copy owner callee : FunctionId}

/-! ## Replacements that stay -/

/-- Only functions that exist are remembered. -/
def Known (state : Threading) : Prop :=
  ∀ {id copy : FunctionId}, state.updated.lookup id = some copy →
    id.index < state.tables.functions.size

/-- Threading has to do with a function, and its replacement is remembered. -/
structure Settled (plan : Plan) (state : Threading) (id copy : FunctionId) : Prop where
  concerned : state.concerns plan id = true
  found : state.updated.lookup id = some copy

/-- What is made for a function: itself or a new function, and nothing is remembered yet. -/
structure Makes (state : Threading) (id copy : FunctionId) (next : Threading) : Prop where
  updated : next.updated = state.updated
  internal : next.locals.internal = state.locals.internal
  fresh : copy = id ∨ state.tables.functions.size ≤ copy.index
  inside : id.index < state.tables.functions.size → copy.index < next.tables.functions.size

/-- A copy that is made after the tables have grown is a new function. -/
theorem makes_of_clone {grown after : Tables} {change : Function → Function}
    (grows : state.tables.Adds grown) (cloned : grown.cloneFunction id change = .ok (copy, after))
    (updated : next.updated = state.updated)
    (internal : next.locals.internal = state.locals.internal) (tables : next.tables = after) :
    Makes state id copy next := by
  have larger := grows.size_functions
  simp only [Tables.cloneFunction, Tables.addFunction, Outcome.bind_eq_ok_iff, Outcome.pure_eq_ok,
    Except.ok.injEq, Prod.mk.injEq] at cloned
  obtain ⟨function, -, rfl, rfl⟩ := cloned
  exact ⟨updated, internal, .inr larger, fun _ => by simp [tables]⟩

/-- The parameters of a slot come with names for them, and with nothing else. -/
theorem createHalves_inv {slot : TextureSlot} {halves : List Field} {params : List Param}
    (made : state.createHalves slot halves = .ok (params, next)) :
    next.updated = state.updated ∧ next.locals = state.locals := by
  induction halves generalizing state params with
  | nil =>
    simp only [createHalves, Except.ok.injEq, Prod.mk.injEq] at made
    exact made.2 ▸ ⟨rfl, rfl⟩
  | cons half halves inductionHypothesis =>
    simp only [createHalves, createHalf, Outcome.bind_eq_ok_iff, Outcome.pure_eq_ok,
      Except.ok.injEq, Prod.mk.injEq] at made
    obtain ⟨⟨param, middle⟩, ⟨type, -, half⟩, ⟨others, last⟩, rest, -, rfl⟩ := made
    obtain ⟨sameUpdated, sameLocals⟩ := inductionHypothesis rest
    split at half
    · simp at half
    · simp only [Outcome.bind_eq_ok_iff, Except.ok.injEq, Prod.mk.injEq] at half
      obtain ⟨_, -, -, rfl⟩ := half
      exact ⟨sameUpdated, sameLocals⟩

/-- So do those of several slots. -/
theorem createSlots_inv {slots : List TextureSlot} {params : List Param}
    (made : state.createSlots slots = .ok (params, next)) :
    next.updated = state.updated ∧ next.locals = state.locals := by
  induction slots generalizing state params with
  | nil =>
    simp only [createSlots, Except.ok.injEq, Prod.mk.injEq] at made
    exact made.2 ▸ ⟨rfl, rfl⟩
  | cons slot slots inductionHypothesis =>
    simp only [createSlots, Outcome.bind_eq_ok_iff, Outcome.pure_eq_ok, Except.ok.injEq,
      Prod.mk.injEq] at made
    obtain ⟨_, -, _, -, ⟨first, middle⟩, firstOk, ⟨others, last⟩, rest, -, rfl⟩ := made
    obtain ⟨sameUpdated, sameLocals⟩ := inductionHypothesis rest
    obtain ⟨sameFirst, firstLocals⟩ := createHalves_inv firstOk
    exact ⟨sameUpdated.trans sameFirst, sameLocals.trans firstLocals⟩

/-- The copy of a helper is a new function. -/
theorem copyHelper_makes (made : state.copyHelper plan id = .ok (copy, next)) :
    Makes state id copy next := by
  simp only [copyHelper, Outcome.bind_eq_ok_iff, Outcome.pure_eq_ok, Except.ok.injEq,
    Prod.mk.injEq] at made
  obtain ⟨⟨param, one⟩, created, two, marks, ⟨_, three⟩, cloned, rfl, rfl⟩ := made
  have grows := @Tables.markParam_equips _ _ (fun _ => True) _ _ _ _ _ _ created marks
  exact makes_of_clone grows.toAdds cloned rfl rfl rfl

/-- The entry point stays itself or is copied as well. -/
theorem enterMain_makes (made : state.enterMain plan id = .ok (copy, next)) :
    Makes state id copy next := by
  unfold enterMain at made
  split at made
  case h_1 =>
    simp only [Outcome.bind_eq_ok_iff] at made
    obtain ⟨function, -, made⟩ := made
    split at made
    · simp only [Outcome.bind_eq_ok_iff, Outcome.pure_eq_ok, Except.ok.injEq,
        Prod.mk.injEq] at made
      obtain ⟨_, cloned, rfl, rfl⟩ := made
      exact makes_of_clone (.refl _) cloned rfl rfl rfl
    · simp at made
  case h_2 =>
    simp only [Outcome.bind_eq_ok_iff, Outcome.pure_eq_ok, Except.ok.injEq, Prod.mk.injEq] at made
    obtain ⟨_, -, _, params, _, cloned, rfl, rfl⟩ := made
    have grows := @createFieldParams_equips (fun _ => True) _ _ _ _ params
    exact makes_of_clone grows.toAdds cloned rfl rfl rfl
  case h_3 =>
    simp only [Outcome.bind_eq_ok_iff, Outcome.pure_eq_ok, Except.ok.injEq, Prod.mk.injEq] at made
    obtain ⟨_, -, ⟨_, middle⟩, params, _, cloned, rfl, rfl⟩ := made
    have grows := (@createSlots_continues _ _ (fun _ => True) _ _ params).equips
    obtain ⟨sameUpdated, sameLocals⟩ := createSlots_inv params
    exact makes_of_clone grows.toAdds cloned sameUpdated (congrArg Scoped.internal sameLocals) rfl
  case h_4 =>
    simp only [createIndexParam, Outcome.bind_eq_ok_iff, Outcome.pure_eq_ok, Except.ok.injEq,
      Prod.mk.injEq] at made
    obtain ⟨_, ⟨_, created, _, marks, rfl⟩, _, cloned, rfl, rfl⟩ := made
    have grows := @Tables.markParam_equips _ _ (fun _ => True) _ _ _ _ _ _ created marks
    exact makes_of_clone grows.toAdds cloned rfl rfl rfl
  case h_5 =>
    simp only [Outcome.bind_eq_ok_iff, Outcome.pure_eq_ok, Except.ok.injEq, Prod.mk.injEq] at made
    obtain ⟨_, -, rfl, rfl⟩ := made
    exact ⟨rfl, rfl, .inl rfl, fun known => known⟩
  case h_6 =>
    simp only [Outcome.bind_eq_ok_iff, Outcome.pure_eq_ok, Except.ok.injEq, Prod.mk.injEq] at made
    obtain ⟨_, created, _, cloned, rfl, rfl⟩ := made
    have grows := @createStructParam_equips _ (fun _ => True) _ _ _ created
    exact makes_of_clone grows.toAdds cloned rfl rfl rfl

/-- Asking for a replacement finds it, or has it made and remembers it. -/
theorem update_inv (made : state.update plan id = .ok (copy, next)) :
    state.concerns plan id = true ∧
      (state.updated.lookup id = some copy ∧ next = state ∨
        state.updated.lookup id = none ∧ id.index < state.tables.functions.size ∧
          ∃ middle, Makes state id copy middle ∧ next = middle.remember id copy) := by
  simp only [update, Outcome.bind_eq_ok_iff, ensure_eq_ok_iff, Outcome.exists_unit] at made
  obtain ⟨concerned, made⟩ := made
  refine ⟨concerned, ?_⟩
  split at made
  case h_1 known found =>
    simp only [Outcome.pure_eq_ok, Except.ok.injEq, Prod.mk.injEq] at made
    obtain ⟨rfl, rfl⟩ := made
    exact .inl ⟨found, rfl⟩
  case h_2 unknown =>
    simp only [Outcome.bind_eq_ok_iff, Tables.functionAt_eq_ok_iff] at made
    obtain ⟨function, known, made⟩ := made
    refine .inr ⟨unknown, (Array.getElem?_eq_some_iff.mp known).1, ?_⟩
    split at made
    · simp only [Outcome.bind_eq_ok_iff, Outcome.pure_eq_ok, Except.ok.injEq,
        Prod.mk.injEq] at made
      obtain ⟨⟨_, middle⟩, enters, rfl, rfl⟩ := made
      exact ⟨middle, enterMain_makes enters, rfl⟩
    · simp only [Outcome.bind_eq_ok_iff, Outcome.pure_eq_ok, Except.ok.injEq,
        Prod.mk.injEq] at made
      obtain ⟨⟨_, middle⟩, copies, rfl, rfl⟩ := made
      exact ⟨middle, copyHelper_makes copies, rfl⟩

/-- Asking for a replacement forgets no other one. -/
theorem update_keeps (known : state.Known) (made : state.update plan id = .ok (copy, next))
    {other old : FunctionId} (found : state.updated.lookup other = some old) :
    next.updated.lookup other = some old := by
  obtain ⟨-, ⟨-, rfl⟩ | ⟨unknown, inside, middle, makes, rfl⟩⟩ := update_inv made
  · exact found
  · have old := known found
    have different : other ≠ id := by
      rintro rfl
      simp [unknown] at found
    have notCopy : other ≠ copy := by
      rintro rfl
      rcases makes.fresh with same | new
      · exact different same
      · omega
    rw [lookup_remember, if_neg notCopy, if_neg different, makes.updated, found]

/-- A function that is remembered exists when it is. -/
theorem Known.update (known : state.Known) (made : state.update plan id = .ok (copy, next)) :
    next.Known := by
  intro other old found
  have grown := (update_continues made).equips.size_functions
  obtain ⟨-, ⟨-, rfl⟩ | ⟨unknown, inside, middle, makes, rfl⟩⟩ := update_inv made
  · exact known found
  · have copyInside := makes.inside inside
    rw [lookup_remember] at found
    split at found
    case isTrue same => exact same ▸ copyInside
    case isFalse =>
      split at found
      case isTrue same =>
        rw [same]
        exact Nat.lt_of_lt_of_le inside grown
      case isFalse =>
        rw [makes.updated] at found
        exact Nat.lt_of_lt_of_le (known found) grown

/-- So it stays when any number of replacements are asked for. -/
theorem Known.updates (known : state.Known) (updates : Updates plan state next) : next.Known := by
  induction updates with
  | refl => exact known
  | tail _ step inductionHypothesis =>
    obtain ⟨id, copy, made⟩ := step
    exact inductionHypothesis.update made

/-- A function that was asked for is settled. -/
theorem update_settled (made : state.update plan id = .ok (copy, next)) :
    Settled plan next id copy := by
  obtain ⟨concerned, ⟨found, rfl⟩ | ⟨unknown, inside, middle, makes, rfl⟩⟩ := update_inv made
  · exact ⟨concerned, found⟩
  · have replaced : (middle.remember id copy).updated.lookup id = some copy := by
      rw [lookup_remember]
      split <;> simp
    have dependent : id ∈ plan.dependents := by
      simpa [concerns, isReplacement, unknown] using concerned
    exact ⟨by simp [concerns, dependent], replaced⟩

/-- Asking again for a settled function changes nothing. -/
theorem Settled.update_eq (settled : Settled plan state id copy) :
    state.update plan id = .ok (copy, state) := by
  simp [update, settled.concerned, settled.found]

/-- A function stays settled when another one is asked for. -/
theorem Settled.keep (settled : Settled plan state owner copy) (known : state.Known)
    {other : FunctionId} (made : state.update plan callee = .ok (other, next)) :
    Settled plan next owner copy := by
  refine ⟨?_, update_keeps known made settled.found⟩
  have concerned := settled.concerned
  simp only [concerns, isReplacement, Bool.or_eq_true, decide_eq_true_eq] at concerned ⊢
  exact concerned.imp_right (update_keeps known made)

/-- Asking for a replacement leaves the local instance of the entry point. -/
theorem update_internal (made : state.update plan id = .ok (copy, next)) :
    next.locals.internal = state.locals.internal := by
  obtain ⟨-, ⟨-, rfl⟩ | ⟨-, -, middle, makes, rfl⟩⟩ := update_inv made
  · rfl
  · exact makes.internal

/-- Asking for several replacements forgets none. -/
theorem updateAll_keeps {ids : List FunctionId} (known : state.Known)
    (made : state.updateAll plan ids = .ok next) {other old : FunctionId}
    (found : state.updated.lookup other = some old) : next.updated.lookup other = some old := by
  induction ids generalizing state with
  | nil =>
    simp only [updateAll, Except.ok.injEq] at made
    exact made ▸ found
  | cons id ids inductionHypothesis =>
    simp only [updateAll, Outcome.bind_eq_ok_iff] at made
    obtain ⟨⟨copy, middle⟩, first, rest⟩ := made
    exact inductionHypothesis (known.update first) rest (update_keeps known first found)

/-! ## Calls -/

section Calls

variable {α : Type} {dialogue : Dialogue α} {callees : List FunctionId} {mentions : List VariableId}
  {args : List Expr}

/-- The hooks leave a call of a function that is not dependent. -/
theorem hooks_call_free (free : plan.dependents.contains callee = false) :
    (hooks plan).call owner callee args = pure (.call callee args) := by
  simp only [hooks, free]
  rfl

/-- For a call of a dependent function, both functions are replaced and the instance is passed
on. -/
theorem run_hooks_call (dependent : plan.dependents.contains callee = true) :
    ((hooks plan).call owner callee args).run state = do
      let (copy, next) ← state.update plan callee
      let (caller, next) ← next.update plan owner
      let holder ← Plan.instanceOf plan.toGathering next.tables next.locals caller
      return (.call copy (.var holder :: args), next) := by
  simp only [hooks, dependent, if_true]
  simp

/-- The substitution leaves such a call as well. -/
theorem callSubstitution_free {holder : VariableId}
    (free : plan.dependents.contains callee = false) :
    (plan.callSubstitution state holder).call callee args = .call callee args := by
  simp only [Plan.callSubstitution, free]
  rfl

/-- For a call of a function that was replaced, the substitution puts one of the replacement. -/
theorem callSubstitution_found {holder : VariableId}
    (dependent : plan.dependents.contains callee = true)
    (found : state.updated.lookup callee = some copy) :
    (plan.callSubstitution state holder).call callee args = .call copy (.var holder :: args) := by
  simp only [Plan.callSubstitution, dependent, if_true, replacement_of_lookup found]

/-- Once the owner of a body is settled, a dialogue about the body has the functions replaced that
are called in it, and substitutes. -/
theorem follow_settled (asks : dialogue.Asks owner callees mentions) (known : state.Known)
    {caller : FunctionId} {holder : VariableId} (settled : Settled plan state owner caller)
    (works : Plan.instanceOf plan.toGathering state.tables state.locals caller = .ok holder) :
    (dialogue.follow (hooks plan)).run state = do
      let next ← state.updateAll plan (callees.filter plan.dependents.contains)
      return (dialogue.follow (plan.callSubstitution next holder).hooks, next) := by
  -- The induction is over any state, because every call of a dependent function changes it. What
  -- it keeps is that the owner is settled and has the same instance.
  induction asks generalizing state with
  | done value => rfl
  | symbol id _ inductionHypothesis =>
    exact inductionHypothesis (.var id) known settled works
  | @call callee args answers callees mentions _ inductionHypothesis =>
    rw [Dialogue.follow_ask, Rebuilder.ask, StateT.run_bind]
    cases dependent : plan.dependents.contains callee with
    | false =>
      rw [hooks_call_free dependent, List.filter_cons_of_neg (by simpa using dependent)]
      simp only [Substitution.follow_call, callSubstitution_free dependent]
      exact inductionHypothesis _ known settled works
    | true =>
      rw [run_hooks_call dependent, List.filter_cons_of_pos dependent, updateAll]
      simp only [bind_assoc]
      refine Outcome.bind_congr_of_ok ?_
      rintro ⟨copy, next⟩ made
      have settledNext := settled.keep known made
      have knownNext : next.Known := known.update made
      have worksNext := Plan.instanceOf_extends
        (update_continues made).equips.toExtends (update_internal made) works
      simp only [settledNext.update_eq, worksNext, Outcome.ok_bind, Outcome.pure_eq_ok]
      rw [inductionHypothesis _ knownNext settledNext worksNext]
      refine Outcome.bind_congr_of_ok fun final others => ?_
      -- The substitution uses the last state, which still has the replacement made here.
      have found := updateAll_keeps knownNext others (update_settled made).found
      rw [Substitution.follow_call, callSubstitution_found dependent found]
      rfl

/-- Before the first call of a dependent function nothing happens. That call settles the owner of
the body, and the rest is as in `follow_settled`. -/
theorem follow_unsettled (asks : dialogue.Asks owner callees mentions) (known : state.Known)
    {first : FunctionId} {rest : List FunctionId}
    (calls : callees.filter plan.dependents.contains = first :: rest) :
    (dialogue.follow (hooks plan)).run state = do
      let (_, next) ← state.update plan first
      let (caller, next) ← next.update plan owner
      let holder ← Plan.instanceOf plan.toGathering next.tables next.locals caller
      let next ← next.updateAll plan rest
      return (dialogue.follow (plan.callSubstitution next holder).hooks, next) := by
  induction asks with
  | done value => simp at calls
  | symbol id _ inductionHypothesis => exact inductionHypothesis (.var id) calls
  | @call callee args answers callees mentions others inductionHypothesis =>
    rw [Dialogue.follow_ask, Rebuilder.ask, StateT.run_bind]
    cases dependent : plan.dependents.contains callee with
    | false =>
      rw [List.filter_cons_of_neg (by simpa using dependent)] at calls
      rw [hooks_call_free dependent]
      simp only [Substitution.follow_call, callSubstitution_free dependent]
      exact inductionHypothesis _ calls
    | true =>
      rw [List.filter_cons_of_pos dependent, List.cons.injEq] at calls
      obtain ⟨rfl, rfl⟩ := calls
      rw [run_hooks_call dependent]
      simp only [bind_assoc]
      refine Outcome.bind_congr_of_ok ?_
      rintro ⟨copy, one⟩ made
      have knownOne : one.Known := known.update made
      refine Outcome.bind_congr_of_ok ?_
      rintro ⟨caller, two⟩ madeOwner
      have knownTwo : two.Known := knownOne.update madeOwner
      refine Outcome.bind_congr_of_ok fun holder works => ?_
      rw [pure_bind, follow_settled (others _) knownTwo (update_settled madeOwner) works]
      refine Outcome.bind_congr_of_ok fun final rest => ?_
      have found := updateAll_keeps knownTwo rest
        (update_keeps knownOne madeOwner (update_settled made).found)
      rw [Substitution.follow_call, callSubstitution_found dependent found]

/-- Rebuilding a body with the hooks passes the instance on in it. -/
theorem run_rebuildAll (known : state.Known) (body : Block) :
    (Stmt.rebuildAll (hooks plan) owner body).run state = state.threadCalls plan owner body := by
  rw [threadCalls]
  split
  case h_1 none =>
    rw [List.filter_eq_nil_iff] at none
    have unchanged : Stmt.rebuildAll (hooks plan) owner body = pure (body.subst {}) := by
      refine Block.rebuild_eq_pure (fun callee called args => ?_) fun _ _ => rfl
      exact hooks_call_free (by simpa using none callee called)
    rw [unchanged, Block.subst_default]
    rfl
  case h_2 first rest calls =>
    rw [← Dialogue.follow_rebuildStmts, follow_unsettled body.rebuild_asks known calls]
    simp only [Block.follow_eq_subst]

end Calls

/-! ## Declarations -/

/-- For a prototype, a function is replaced that threading has to do with. -/
theorem run_hooks_prototype :
    ((hooks plan).prototype id).run state =
      if state.concerns plan id then state.update plan id else .ok (id, state) := by
  simp only [hooks, StateT.run_bind, StateT.run_get, pure_bind]
  split <;> rfl

/-- After the body of a function that threading has to do with, the function is replaced, and the
body of the entry point is wrapped. -/
theorem run_hooks_definition {body : Block} :
    ((hooks plan).definition id body).run state = do
      let isMain := (← state.tables.functionAt id).isMain
      if state.concerns plan id then
        let (copy, next) ← state.update plan id
        let body ← if isMain then plan.wrapMain next.tables next.locals copy body else pure body
        return ((copy, body), next)
      else
        return ((id, body), state) := by
  simp only [hooks, StateT.run_bind, StateT.run_get, pure_bind, StateT.run_monadLift, bind_assoc]
  refine Outcome.bind_congr_of_ok fun entry _ => ?_
  split
  · rw [StateT.run_bind, run_replace]
    refine Outcome.bind_congr_of_ok ?_
    rintro ⟨copy, next⟩ -
    rw [StateT.run_bind, StateT.run_get, pure_bind]
    split <;> simp
  · rfl

/-- Rebuilding a declaration with the hooks threads through it. -/
theorem run_rebuild (known : state.Known) (global : Global) :
    (global.rebuild (hooks plan)).run state = do
      let (threaded, next) ← state.threadGlobal plan global
      return (some threaded, next) := by
  cases global with
  | struct type => rfl
  | var id => rfl
  | prototype function =>
    rw [Global.rebuild, StateT.run_bind, run_hooks_prototype, threadGlobal]
    split
    · rw [bind_assoc]
      rfl
    · rfl
  | definition function body =>
    have entered : Global.rebuild (hooks plan) (.definition function body) = (do
        let body ← Stmt.rebuildAll (hooks plan) function body
        let made ← (hooks plan).definition function body
        return some (.definition made.1 made.2)) := rfl
    rw [entered, StateT.run_bind, run_rebuildAll known, threadGlobal, bind_assoc]
    refine Outcome.bind_congr_of_ok ?_
    rintro ⟨threaded, next⟩ -
    rw [StateT.run_bind, run_hooks_definition]
    simp only [bind_assoc]
    refine Outcome.bind_congr_of_ok fun entry _ => ?_
    split
    · simp only [bind_assoc]
      refine Outcome.bind_congr_of_ok ?_
      rintro ⟨copy, final⟩ -
      split
      · rw [bind_assoc, bind_assoc]
        rfl
      · rfl
    · rfl

/-- Rebuilding the declarations with the hooks threads through them. -/
theorem run_rebuildGlobals (known : state.Known) (globals : List Global) :
    (Global.rebuildAll (hooks plan) globals).run state = state.threadGlobals plan globals := by
  induction globals generalizing state with
  | nil => rfl
  | cons global rest inductionHypothesis =>
    rw [Global.rebuildAll, StateT.run_bind, run_rebuild known, threadGlobals, bind_assoc]
    refine Outcome.bind_congr_of_ok ?_
    rintro ⟨threaded, next⟩ made
    have afterwards : next.Known := known.updates (threadGlobal_updates made).1
    rw [pure_bind, StateT.run_bind, inductionHypothesis afterwards]
    rfl

end Threading

/-! ## Reading the instance -/

namespace Plan

variable {gathering : Gathering} {tables : Tables} {locals : Scoped VariableId}
  {owner : FunctionId} {id : VariableId}

/-- Mentions of other variables stay. -/
theorem reading_symbol_free (free : gathering.members.contains id = false) :
    (reading gathering tables locals).symbol owner id = pure (.var id) := by
  simp only [reading, free]
  rfl

/-- Rebuilding a body with the hooks reads gathered variables from the instance, which is only
looked for if there is such a variable. -/
theorem rebuildAll_reading (body : Block) :
    Stmt.rebuildAll (reading gathering tables locals) owner body =
      if body.symbols.any gathering.members.contains then do
        let holder ← instanceOf gathering tables locals owner
        return body.subst (symbolSubstitution gathering holder)
      else .ok body := by
  split
  case isFalse none =>
    have unchanged : Stmt.rebuildAll (reading gathering tables locals) owner body =
        pure (body.subst {}) := by
      refine Block.rebuild_eq_pure (fun _ _ _ => rfl) fun id mentioned => ?_
      rw [Bool.not_eq_true, List.any_eq_false] at none
      exact reading_symbol_free (by simpa using none id mentioned)
    rw [unchanged, Block.subst_default]
    rfl
  case isTrue some =>
    cases works : instanceOf gathering tables locals owner with
    | ok holder =>
      refine Block.rebuild_eq_pure (fun _ _ _ => rfl) fun id _ => ?_
      simp only [reading, symbolSubstitution, works]
      split <;> rfl
    | error failure =>
      obtain ⟨id, mentioned, gathered⟩ := List.any_eq_true.mp some
      rw [← Dialogue.follow_rebuildStmts]
      refine body.rebuild_asks.follow_eq_error (fun _ _ _ => ⟨_, rfl⟩) (fun id _ => ?_)
        ⟨id, mentioned, ?_⟩
      · cases other : gathering.members.contains id with
        | false => exact .inr ⟨_, reading_symbol_free other⟩
        | true => exact .inl (by simp only [reading, other, works]; rfl)
      · simp only [reading, gathered, works]
        rfl

/-- Rebuilding a declaration with the hooks lets it read the gathered variables. -/
theorem rebuild_reading (global : Global) :
    global.rebuild (reading gathering tables locals) =
      some <$> readInstance gathering tables locals global := by
  cases global with
  | struct type => rfl
  | var id => rfl
  | prototype function => rfl
  | definition function body =>
    have entered :
        Global.rebuild (reading gathering tables locals) (.definition function body) = (do
          let body ← Stmt.rebuildAll (reading gathering tables locals) function body
          return some (.definition function body)) := rfl
    rw [entered, rebuildAll_reading, readInstance]
    split
    · simp
    · rfl

/-- Rebuilding the declarations with the hooks lets each of them read the gathered variables. -/
theorem rebuildGlobals_reading (globals : List Global) :
    Global.rebuildAll (reading gathering tables locals) globals =
      globals.mapM (readInstance gathering tables locals) := by
  induction globals with
  | nil => rfl
  | cons global rest inductionHypothesis =>
    rw [Global.rebuildAll, rebuild_reading, inductionHypothesis, List.mapM_cons]
    simp

end Plan

/-! ## The whole -/

/-- Threading a category through a shader is a rebuild that passes the instance on, with the state
of threading kept by its hooks, and then one that reads the gathered variables from it. -/
theorem Shader.thread_eq_rebuilds (shader : Shader) (gathering : Gathering)
    (dependents : List FunctionId) :
    shader.thread gathering dependents = do
      let (locals, tables) ← Plan.createLocals gathering shader.program.tables
      let initials ← Plan.initialValues gathering tables
      let plan : Plan := { gathering with dependents, initials }
      let start : Threading := { tables, reflection := shader.reflection, locals, updated := [] }
      let (globals, state) ←
        (Global.rebuildAll (Threading.hooks plan) shader.program.globals).run start
      let globals ← Global.rebuildAll (Plan.reading gathering state.tables state.locals) globals
      return { shader with
        program := ⟨state.tables, globals⟩, reflection := state.reflection } := by
  rw [thread]
  refine Outcome.bind_congr_of_ok ?_
  rintro ⟨locals, tables⟩ -
  refine Outcome.bind_congr_of_ok fun initials _ => ?_
  have known : Threading.Known
      { tables, reflection := shader.reflection, locals, updated := [] } := by
    intro id copy found
    simp at found
  simp only [Threading.run_rebuildGlobals known, Plan.rebuildGlobals_reading]

end ShaderPipeline
