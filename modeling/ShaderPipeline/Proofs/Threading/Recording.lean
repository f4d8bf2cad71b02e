import Mathlib.Logic.Relation
import ShaderPipeline.Proofs.Threading.Program

/-!
# What threading records

The state of threading changes only where a replacement is asked for, so what one
such step keeps is kept by the whole. The recorded names change once, when an
entry point that takes textures is replaced: then the field of every slot is
recorded for the two parameters that the entry point takes for it.
-/

namespace ShaderPipeline

namespace Gathering

/-- The slots depend on the types only. -/
theorem slots_congr {gathering : Gathering} {before after : Tables}
    (same : after.types = before.types) : gathering.slots after = gathering.slots before := by
  simp only [slots, TextureSlot.ofFields, Tables.shapeOf_congr same, Tables.fieldsOf, Tables.typeAt,
    same]

end Gathering

namespace Threading

variable {plan : Plan} {state next final : Threading}

/-! ## Steps of a state -/

/-- The second state is reached from the first one by asking for replacements. -/
def Updates (plan : Plan) : Threading → Threading → Prop :=
  Relation.ReflTransGen fun state next => ∃ id copy, state.update plan id = .ok (copy, next)

/-- Asking for one replacement is a step. -/
theorem Updates.one {id copy : FunctionId} (made : state.update plan id = .ok (copy, next)) :
    Updates plan state next := .single ⟨id, copy, made⟩

/-- Asking for several replacements is several steps. -/
theorem updateAll_updates {ids : List FunctionId} (made : state.updateAll plan ids = .ok next) :
    Updates plan state next := by
  induction ids generalizing state with
  | nil =>
    simp only [updateAll, Except.ok.injEq] at made
    exact made ▸ .refl
  | cons id ids inductionHypothesis =>
    simp only [updateAll, Outcome.bind_eq_ok_iff] at made
    obtain ⟨⟨copy, middle⟩, first, made⟩ := made
    exact (Updates.one first).trans (inductionHypothesis made)

/-- Threading the calls of a body only asks for replacements. -/
theorem threadCalls_updates {owner : FunctionId} {body threaded : Block}
    (made : state.threadCalls plan owner body = .ok (threaded, next)) :
    Updates plan state next := by
  unfold threadCalls at made
  split at made
  · simp only [Except.ok.injEq, Prod.mk.injEq] at made
    exact made.2 ▸ .refl
  · simp only [Outcome.bind_eq_ok_iff, Outcome.pure_eq_ok, Except.ok.injEq, Prod.mk.injEq] at made
    obtain ⟨⟨_, one⟩, first, ⟨_, two⟩, second, _, -, three, third, -, rfl⟩ := made
    exact ((Updates.one first).trans (Updates.one second)).trans (updateAll_updates third)

/-- What becomes of a declaration declares the same variable, if any. -/
theorem threadGlobal_updates {global threaded : Global}
    (made : state.threadGlobal plan global = .ok (threaded, next)) :
    Updates plan state next ∧ threaded.declared? = global.declared? := by
  cases global with
  | struct | var =>
    simp only [threadGlobal, Except.ok.injEq, Prod.mk.injEq] at made
    obtain ⟨rfl, rfl⟩ := made
    exact ⟨.refl, rfl⟩
  | prototype function =>
    simp only [threadGlobal] at made
    split at made
    · simp only [Outcome.bind_eq_ok_iff, Outcome.pure_eq_ok, Except.ok.injEq,
        Prod.mk.injEq] at made
      obtain ⟨⟨copy, middle⟩, updates, rfl, rfl⟩ := made
      exact ⟨.one updates, rfl⟩
    · simp only [Except.ok.injEq, Prod.mk.injEq] at made
      obtain ⟨rfl, rfl⟩ := made
      exact ⟨.refl, rfl⟩
  | definition function body =>
    simp only [threadGlobal, Outcome.bind_eq_ok_iff] at made
    obtain ⟨⟨changed, middle⟩, calls, entry, -, made⟩ := made
    split at made
    · simp only [Outcome.bind_eq_ok_iff] at made
      obtain ⟨⟨copy, last⟩, updates, made⟩ := made
      have reached := (threadCalls_updates calls).trans (Updates.one updates)
      split at made
      · simp only [Outcome.bind_eq_ok_iff, Outcome.pure_eq_ok, Except.ok.injEq,
          Prod.mk.injEq] at made
        obtain ⟨_, -, rfl, rfl⟩ := made
        exact ⟨reached, rfl⟩
      · simp only [Outcome.ok_bind, Outcome.pure_eq_ok, Except.ok.injEq, Prod.mk.injEq] at made
        obtain ⟨rfl, rfl⟩ := made
        exact ⟨reached, rfl⟩
    · simp only [Outcome.pure_eq_ok, Except.ok.injEq, Prod.mk.injEq] at made
      obtain ⟨rfl, rfl⟩ := made
      exact ⟨threadCalls_updates calls, rfl⟩

/-- Threading the declarations only asks for replacements, and declares the same variables. -/
theorem threadGlobals_updates {globals threaded : List Global}
    (made : state.threadGlobals plan globals = .ok (threaded, next)) :
    Updates plan state next ∧
      threaded.filterMap Global.declared? = globals.filterMap Global.declared? := by
  induction globals generalizing state threaded with
  | nil =>
    simp only [threadGlobals, Except.ok.injEq, Prod.mk.injEq] at made
    obtain ⟨rfl, rfl⟩ := made
    exact ⟨.refl, rfl⟩
  | cons global globals inductionHypothesis =>
    simp only [threadGlobals, Outcome.bind_eq_ok_iff, Outcome.pure_eq_ok, Except.ok.injEq,
      Prod.mk.injEq] at made
    obtain ⟨⟨first, middle⟩, firstOk, ⟨rest, last⟩, restOk, rfl, rfl⟩ := made
    obtain ⟨toMiddle, sameFirst⟩ := threadGlobal_updates firstOk
    obtain ⟨toLast, sameRest⟩ := inductionHypothesis restOk
    refine ⟨toMiddle.trans toLast, ?_⟩
    rw [List.filterMap_cons, List.filterMap_cons, sameFirst, sameRest]

/-! ## Recorded names -/

variable {base : Tables} {locals : Scoped VariableId} {main id copy : FunctionId}
  {function : Function} {start : Reflection}

/-- What is recorded until an entry point that takes textures is replaced, and from then on. -/
structure Recorded (plan : Plan) (base : Tables) (main : FunctionId) (start : Reflection)
    (state : Threading) : Prop where
  pending : state.updated.lookup main = none → state.reflection = start
  done : ∀ {copy : FunctionId} {function : Function},
    base.functions[main.index]? = some function → state.updated.lookup main = some copy →
      plan.category.entry = .textureParams → ∃ params,
        state.tables.functions[copy.index]? = some (function.append params) ∧
          state.reflection = start.recordSlots (plan.slots base) params

/-- A step records the fields when it replaces the entry point, and nothing else. -/
theorem Step.recorded (ground : plan.Ground base locals main)
    (coherent : Coherent plan base locals main state) (member : id ∈ plan.dependents)
    (known : base.functions[id.index]? = some function)
    (recorded : Recorded plan base main start state)
    (step : Step plan id function state copy next) : Recorded plan base main start next := by
  have isMain := ground.onlyMain id member function known
  obtain ⟨later, found⟩ := step.before coherent isMain
  cases step with
  | remembered => exact recorded
  | stays new enters shape =>
    obtain rfl := isMain.mp enters
    exact ⟨fun unknown => by simp [found] at unknown, fun _ _ other => by simp [shape] at other⟩
  | @copied news copied new replaced =>
    by_cases enters : id = main
    · subst enters
      refine ⟨fun unknown => by simp [found] at unknown, fun {copy entry} there lookup shape => ?_⟩
      obtain rfl : function = entry := Option.some.inj (known.symm.trans there)
      obtain rfl : _ = copy := Option.some.inj (found.symm.trans lookup)
      have isEntry := isMain.mpr rfl
      cases replaced with
      | helper helps => simp [helps] at isEntry
      | @textureParams _ _ name fields _ struct halves =>
        have sameSlots := @Gathering.slots_congr plan.toGathering _ _ coherent.adds.sameTypes
        refine ⟨_, getElem?_copy (.refl _), ?_⟩
        simp only [remember, nextReflection, isEntry, shape, decide_true, Bool.and_self, if_true,
          recorded.pending new]
        rw [halves.length, ← Gathering.slots_eq struct, sameSlots]
      | returning _ other | fieldParams _ other | indexParam _ other | structParam _ other =>
        simp [shape] at other
    · have helps : function.isMain = false := by simpa using mt isMain.mp enters
      have sameNames : nextReflection plan function state = state.reflection := by
        simp [nextReflection, helps]
      refine ⟨fun unknown => ?_, fun {copy entry} there lookup shape => ?_⟩
      · refine sameNames.trans (recorded.pending ?_)
        by_contra replacedBefore
        obtain ⟨old, lookup⟩ := Option.ne_none_iff_exists'.mp replacedBefore
        simp [later.keeps lookup] at unknown
      · have old : main.index < state.tables.functions.size :=
          Nat.lt_of_lt_of_le (Array.getElem?_eq_some_iff.mp there).1 coherent.adds.size_functions
        have notNew : main ≠ ⟨state.tables.functions.size⟩ := by
          rintro rfl
          exact Nat.lt_irrefl _ old
        rw [lookup_remember, if_neg notNew, if_neg (Ne.symm enters)] at lookup
        obtain ⟨params, copied, names⟩ := recorded.done there lookup shape
        exact ⟨params, later.adds.functions copied, sameNames.trans names⟩

/-- Whatever replacements are asked for, the state stays coherent and the records complete. -/
theorem Updates.recorded (ground : plan.Ground base locals main) (updates : Updates plan state final)
    (coherent : Coherent plan base locals main state)
    (recorded : Recorded plan base main start state) :
    Coherent plan base locals main final ∧ Recorded plan base main start final := by
  induction updates with
  | refl => exact ⟨coherent, recorded⟩
  | @tail middle next _ step inductionHypothesis =>
    obtain ⟨middleCoherent, middleRecorded⟩ := inductionHypothesis
    obtain ⟨id, copy, made⟩ := step
    by_cases member : id ∈ plan.dependents
    · obtain ⟨function, known⟩ := ground.known id member
      rcases update_step ground middleCoherent member known with ⟨refused, -⟩ | ⟨_, updated, step⟩
      · exact absurd (refused.symm.trans made) (by simp)
      · obtain rfl := Except.ok.inj (made.symm.trans updated)
        exact ⟨step.coherent ground middleCoherent member known,
          step.recorded ground middleCoherent member known middleRecorded⟩
    · -- Of the other functions, only a replacement may be asked for, and it is remembered.
      simp only [update, Outcome.bind_eq_ok_iff] at made
      obtain ⟨⟨⟩, concerned, made⟩ := made
      have remembered : middle.updated.lookup id = some id := by
        simpa [concerns, isReplacement, member] using ensure_eq_ok_iff.mp concerned
      simp only [remembered, Outcome.pure_eq_ok, Except.ok.injEq, Prod.mk.injEq] at made
      exact made.2 ▸ ⟨middleCoherent, middleRecorded⟩

end Threading

end ShaderPipeline
