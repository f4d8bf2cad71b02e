import ShaderPipeline.Proofs.Threading.Update
import ShaderPipeline.Proofs.Tree
import ShaderPipeline.Threading.Program

/-!
# Runs of replacements

Threading asks for one replacement after the other. `Coherent` is what holds of
every state on the way: the tables only grew, every dependent function that was
replaced has the copy that was made for it, and no two functions share one.
`Before` orders the states, and what is known about a replacement stays true
along it.
-/

namespace ShaderPipeline

/-- What a gathered category needs from the tables is about types, so it stays true while variables and
functions are added. -/
theorem Gathering.Suits.adds {gathering : Gathering} {before after : Tables}
    (suits : gathering.Suits before) (adds : before.Adds after) : gathering.Suits after := by
  have types := adds.sameTypes
  have used {id : TypeId} (inUse : before.InUse id) : after.InUse id := by
    simpa [Tables.InUse, types] using inUse
  have sameSlots (fields : List Field) :
      TextureSlot.ofFields after fields = TextureSlot.ofFields before fields := by
    simp only [TextureSlot.ofFields, Tables.shapeOf_congr types]
  refine ⟨?_, ?_, used suits.uint, ?_, ?_⟩
  · simpa [types] using suits.internal
  · simpa [types] using suits.external
  · intro shape name fields struct field member
    exact used (suits.fieldTypes shape name fields (by simpa [types] using struct) field member)
  · intro shape name fields struct slot member
    rw [sameSlots] at member
    have ready := suits.slots shape name fields (by simpa [types] using struct) slot member
    simpa [TextureSlot.Ready, Tables.InUse, types] using ready

namespace Plan

/-- What threading relies on: the tables it starts from hold what the plan refers to, and `main` is
the only entry point among the dependent functions. -/
structure Ground (plan : Plan) (base : Tables) (locals : Scoped VariableId) (main : FunctionId) :
    Prop where
  suits : plan.Suits base
  internal : plan.category.alwaysLocal = true ∨ plan.outer.isSome = true →
    ∃ holder, locals.internal = some holder
  external : plan.category.alwaysLocal = true → plan.category.entry ≠ .indexParam →
    ∃ holder, locals.external = some holder
  /-- The variables of the entry point are new, and the gathered ones are not. -/
  freshLocals : ∀ holder, locals.internal = some holder ∨ locals.external = some holder →
    holder ∉ plan.members
  oldMembers : ∀ id ∈ plan.members, id.index < base.vars.size
  sameLayout : plan.category.layoutRules = none → plan.outer = none
  /-- The index is the first field of its struct. -/
  indexField : plan.category.entry = .indexParam → ∃ name field fields,
    base.types[plan.internal.index]? = some (.struct name (field :: fields))
  known : ∀ id ∈ plan.dependents, ∃ function, base.functions[id.index]? = some function
  onlyMain : ∀ id ∈ plan.dependents, ∀ function, base.functions[id.index]? = some function →
    (function.isMain = true ↔ id = main)

/-- The entry point takes part and would have to return a struct, but returns a value. -/
def RefusesMain (plan : Plan) (base : Tables) (main : FunctionId) : Prop :=
  main ∈ plan.dependents ∧ ∃ function, base.functions[main.index]? = some function ∧
    plan.Refuses function

end Plan

namespace Threading

variable {plan : Plan} {base : Tables} {locals : Scoped VariableId} {main : FunctionId}
  {state next final : Threading} {id : FunctionId}

/-- How the replacement of a dependent function came about, seen from a later state. -/
inductive Made (plan : Plan) (base : Tables) (state : Threading) (id : FunctionId)
    (function : Function) : FunctionId → Prop where
  | stays (enters : function.isMain = true) (shape : plan.category.entry = .localOnly) :
      Made plan base state id function id
  /-- The copy was made when the tables were at `earlier`, and they only grew since. -/
  | copied {earlier : Tables} {news : List Variable} {copy : Function}
      (since : base.Adds earlier) (replaced : plan.Replaced earlier function news copy)
      (kept : ((earlier.addVariables news).addFunction copy).2.Adds state.tables)
      (external : function.isMain = true → plan.category.entry = .indexParam →
        state.locals.external = some ⟨earlier.vars.size⟩) :
      Made plan base state id function ⟨earlier.functions.size⟩

/-- What holds of every state of threading. -/
structure Coherent (plan : Plan) (base : Tables) (locals : Scoped VariableId) (main : FunctionId)
    (state : Threading) : Prop where
  adds : base.Adds state.tables
  /-- A remembered function is a dependent one or a replacement made on the way. -/
  remembered : ∀ {id copy : FunctionId}, state.updated.lookup id = some copy →
    id.index < state.tables.functions.size ∧ copy.index < state.tables.functions.size ∧
      (id ∈ plan.dependents ∨ base.functions.size ≤ id.index)
  made : ∀ {id copy : FunctionId} {function : Function}, id ∈ plan.dependents →
    base.functions[id.index]? = some function → state.updated.lookup id = some copy →
      Made plan base state id function copy
  /-- No two functions have the same replacement. -/
  distinct : ∀ {id other copy : FunctionId}, id ∈ plan.dependents → other ∈ plan.dependents →
    state.updated.lookup id = some copy → state.updated.lookup other = some copy → id = other
  /-- Every new function replaces one. -/
  covered : ∀ {index : Nat}, base.functions.size ≤ index → index < state.tables.functions.size →
    ∃ id ∈ plan.dependents, state.updated.lookup id = some ⟨index⟩
  /-- Every new variable is a parameter. -/
  params : ∀ {index : Nat} {entry : Variable}, base.vars.size ≤ index →
    state.tables.vars[index]? = some entry → entry.IsParam base
  internal : state.locals.internal = locals.internal
  external : plan.category.entry ≠ .indexParam ∨ state.updated.lookup main = none →
    state.locals.external = locals.external

/-- The second state can be reached from the first one. -/
structure Before (main : FunctionId) (first second : Threading) : Prop where
  adds : first.tables.Adds second.tables
  keeps : ∀ {id copy : FunctionId}, first.updated.lookup id = some copy →
    second.updated.lookup id = some copy
  internal : second.locals.internal = first.locals.internal
  /-- The variables of the entry point are settled once it is replaced. -/
  settled : ∀ {copy : FunctionId}, first.updated.lookup main = some copy →
    second.locals = first.locals

/-- Every state comes before itself. -/
theorem Before.refl (main : FunctionId) (state : Threading) : Before main state state where
  adds := .refl state.tables
  keeps known := known
  internal := rfl
  settled _ := rfl

/-- A state comes before what its successors come before. -/
theorem Before.trans (first : Before main state next) (second : Before main next final) :
    Before main state final where
  adds := first.adds.trans second.adds
  keeps known := second.keeps (first.keeps known)
  internal := second.internal.trans first.internal
  settled known := (second.settled (first.keeps known)).trans (first.settled known)

/-- At the start nothing is replaced. -/
theorem coherent_start (base : Tables) (reflection : Reflection) :
    Coherent plan base locals main { tables := base, reflection, locals, updated := [] } where
  adds := .refl base
  remembered known := by simp at known
  made _ _ known := by simp at known
  distinct _ _ known := by simp at known
  covered new old := absurd old (Nat.not_lt.mpr new)
  params := by
    intro index entry new known
    have inside : index < base.vars.size := (Array.getElem?_eq_some_iff.mp known).1
    omega
  internal := rfl
  external _ := rfl

/-- Among the functions that were there before, threading is about the dependent ones. -/
theorem Coherent.concerns_iff (coherent : Coherent plan base locals main state)
    (old : id.index < base.functions.size) :
    state.concerns plan id = true ↔ id ∈ plan.dependents := by
  simp only [concerns, isReplacement, Bool.or_eq_true, List.contains_iff_mem, decide_eq_true_eq]
  refine ⟨fun concerned => ?_, .inl⟩
  rcases concerned with dependent | replaced
  · exact dependent
  · rcases (coherent.remembered replaced).2.2 with dependent | new
    · exact dependent
    · omega

/-! ## One step -/

/-- What the look-ups find after a replacement was remembered. -/
theorem lookup_remember (state : Threading) (id copy other : FunctionId) :
    (state.remember id copy).updated.lookup other =
      if other = copy then some copy else if other = id then some copy
      else state.updated.lookup other := by
  simp only [remember, List.lookup_cons]
  by_cases isCopy : other = copy
  · simp [isCopy]
  · rw [beq_false_of_ne isCopy, if_neg isCopy]
    by_cases isId : other = id
    · simp [isId]
    · simp [beq_false_of_ne isId, isId]

/-- A replacement that was made stays made. -/
theorem Made.before {function : Function} {copy : FunctionId}
    (made : Made plan base state id function copy) (later : Before main state next)
    (settled : function.isMain = true → next.locals = state.locals) :
    Made plan base next id function copy := by
  cases made with
  | stays enters shape => exact .stays enters shape
  | copied since replaced kept external =>
    refine .copied since replaced (kept.trans later.adds) fun enters shape => ?_
    rw [settled enters]
    exact external enters shape

/-- The new variables of a replacement are parameters. -/
theorem isParam_of_replaced {tables : Tables} {function copy : Function} {news : List Variable}
    (suits : plan.Suits tables) (replaced : plan.Replaced tables function news copy) :
    ∀ entry ∈ news, entry.IsParam tables := by
  obtain ⟨internalName, internalFields, internal⟩ := suits.internal
  obtain ⟨externalName, externalFields, external⟩ := suits.external
  cases replaced with
  | helper => simpa using ⟨rfl, rfl, rfl, _, internal, rfl⟩
  | returning => simp
  | fieldParams enters shape struct =>
    intro entry member
    obtain ⟨field, own, rfl⟩ := List.mem_map.mp member
    exact ⟨rfl, rfl, rfl, suits.fieldTypes shape _ _ struct field own⟩
  | textureParams enters shape struct halves params => exact params
  | indexParam => simpa using ⟨rfl, rfl, rfl, suits.uint⟩
  | structParam => simpa using ⟨rfl, rfl, rfl, _, external, rfl⟩

@[simp] theorem nextLocals_internal (plan : Plan) (function : Function) (state : Threading) :
    (nextLocals plan function state).internal = state.locals.internal := by
  unfold nextLocals
  split <;> rfl

/-- A step goes forward, and the replacement is known after it. -/
theorem Step.before {function : Function} {copy : FunctionId}
    (coherent : Coherent plan base locals main state) (isMain : function.isMain = true ↔ id = main)
    (step : Step plan id function state copy next) :
    Before main state next ∧ next.updated.lookup id = some copy := by
  cases step with
  | remembered found => exact ⟨.refl main state, found⟩
  | stays new enters shape =>
    refine ⟨⟨.refl _, ?_, rfl, fun _ => rfl⟩, by simp [lookup_remember]⟩
    intro other copy found
    have different : other ≠ id := by
      rintro rfl
      simp [new] at found
    simp [lookup_remember, different, found]
  | @copied news copy new replaced =>
    refine ⟨⟨?_, ?_, nextLocals_internal plan function state, ?_⟩, by simp [lookup_remember]⟩
    · exact (Tables.addVariables_adds news).trans (Tables.addFunction_adds copy)
    · intro other old found
      have different : other ≠ id := by
        rintro rfl
        simp [new] at found
      have notNew : other ≠ ⟨state.tables.functions.size⟩ := by
        rintro rfl
        exact Nat.lt_irrefl _ (coherent.remembered found).1
      simp [lookup_remember, different, notNew, found]
    · intro old found
      have helps : function.isMain = false := by
        by_contra enters
        have same : id = main := isMain.mp (by simpa using enters)
        simp [← same, new] at found
      simp [remember, nextLocals, helps]

/-- A state that remembers one more replacement stays coherent, if no other function has it. -/
theorem Coherent.extend {function : Function} {copy : FunctionId}
    (ground : plan.Ground base locals main) (coherent : Coherent plan base locals main state)
    (member : id ∈ plan.dependents) (known : base.functions[id.index]? = some function)
    (later : Before main state next)
    (lookups : ∀ {other old : FunctionId}, next.updated.lookup other = some old →
      (old = copy ∧ (other = id ∨ other = copy ∧ base.functions.size ≤ copy.index)) ∨
        state.updated.lookup other = some old)
    (made : Made plan base next id function copy)
    (inside : copy.index < next.tables.functions.size)
    (found : next.updated.lookup id = some copy)
    (fresh : ∀ other ∈ plan.dependents, other ≠ id → state.updated.lookup other ≠ some copy)
    (covered : ∀ {index : Nat}, state.tables.functions.size ≤ index →
      index < next.tables.functions.size → copy = ⟨index⟩)
    (params : ∀ {index : Nat} {entry : Variable}, state.tables.vars.size ≤ index →
      next.tables.vars[index]? = some entry → entry.IsParam base)
    (external : plan.category.entry ≠ .indexParam ∨ next.updated.lookup main = none →
      next.locals.external = locals.external) :
    Coherent plan base locals main next := by
  have old {other : FunctionId} (dependent : other ∈ plan.dependents) :
      other.index < base.functions.size := by
    obtain ⟨entry, there⟩ := ground.known other dependent
    exact (Array.getElem?_eq_some_iff.mp there).1
  have baseGrown := coherent.adds.size_functions
  have grown := later.adds.size_functions
  -- Among dependent functions, only `id` can have been given the new replacement.
  have dependentLookups {other made : FunctionId} (dependent : other ∈ plan.dependents)
      (different : other ≠ id) (found : next.updated.lookup other = some made) :
      state.updated.lookup other = some made := by
    rcases lookups found with ⟨-, same | ⟨rfl, isNew⟩⟩ | before
    · exact absurd same different
    · have := old dependent
      omega
    · exact before
  refine {
    adds := coherent.adds.trans later.adds
    remembered := ?remembered
    made := ?made
    distinct := ?distinct
    covered := ?covered
    params := ?params
    internal := later.internal.trans coherent.internal
    external := external }
  case remembered =>
    intro other made found
    rcases lookups found with ⟨rfl, rfl | ⟨rfl, isNew⟩⟩ | before
    · have := old member
      exact ⟨by omega, inside, .inl member⟩
    · exact ⟨inside, inside, .inr isNew⟩
    · obtain ⟨otherInside, madeInside, kind⟩ := coherent.remembered before
      exact ⟨by omega, by omega, kind⟩
  case made =>
    intro other old entry dependent there lookup
    by_cases same : other = id
    · subst same
      obtain rfl : old = copy := by simpa [found] using lookup.symm
      obtain rfl : entry = function := by simpa [known] using there.symm
      exact made
    · have before := dependentLookups dependent same lookup
      refine (coherent.made dependent there before).before later fun enters => ?_
      have entersMain : other = main := (ground.onlyMain other dependent entry there).mp enters
      exact later.settled (entersMain ▸ before)
  case distinct =>
    intro one other made oneDependent otherDependent oneFound otherFound
    by_cases oneSame : one = id <;> by_cases otherSame : other = id
    · rw [oneSame, otherSame]
    · have before := dependentLookups otherDependent otherSame otherFound
      obtain rfl : made = copy := by simpa [oneSame, found] using oneFound.symm
      exact absurd before (fresh other otherDependent otherSame)
    · have before := dependentLookups oneDependent oneSame oneFound
      obtain rfl : made = copy := by simpa [otherSame, found] using otherFound.symm
      exact absurd before (fresh one oneDependent oneSame)
    · exact coherent.distinct oneDependent otherDependent
        (dependentLookups oneDependent oneSame oneFound)
        (dependentLookups otherDependent otherSame otherFound)
  case covered =>
    intro index isNew inside
    by_cases before : index < state.tables.functions.size
    · obtain ⟨other, dependent, found⟩ := coherent.covered isNew before
      exact ⟨other, dependent, later.keeps found⟩
    · obtain rfl := covered (Nat.not_lt.mp before) inside
      exact ⟨id, member, found⟩
  case params =>
    intro index entry isNew there
    by_cases before : index < state.tables.vars.size
    · have earlier := Array.getElem?_eq_getElem before
      obtain rfl : _ = entry := by simpa [later.adds.vars earlier] using there
      exact coherent.params isNew earlier
    · exact params (Nat.not_lt.mp before) there

/-- A step keeps the state coherent. -/
theorem Step.coherent {function : Function} {copy : FunctionId}
    (ground : plan.Ground base locals main) (coherent : Coherent plan base locals main state)
    (member : id ∈ plan.dependents) (known : base.functions[id.index]? = some function)
    (step : Step plan id function state copy next) : Coherent plan base locals main next := by
  have isMain := ground.onlyMain id member function known
  obtain ⟨later, found⟩ := step.before coherent isMain
  have inside : id.index < base.functions.size := (Array.getElem?_eq_some_iff.mp known).1
  have grown := coherent.adds.size_functions
  cases step with
  | remembered => exact coherent
  | stays new enters shape =>
    refine coherent.extend ground member known later ?_ (.stays enters shape)
      (Nat.lt_of_lt_of_le inside grown) found ?_ ?_ ?_ ?_
    · intro other old lookup
      rw [lookup_remember] at lookup
      grind
    · intro other dependent different lookup
      obtain ⟨entry, there⟩ := ground.known other dependent
      cases coherent.made dependent there lookup with
      | stays => exact different rfl
      | copied since =>
        have := since.size_functions
        simp only at inside
        omega
    · intro index isNew isOld
      exact absurd isOld (Nat.not_lt.mpr isNew)
    · intro index entry isNew there
      have isOld : index < state.tables.vars.size := (Array.getElem?_eq_some_iff.mp there).1
      omega
    · intro _
      exact coherent.external (.inl (by simp [shape]))
  | @copied news copy new replaced =>
    refine coherent.extend ground member known later ?_ (.copied coherent.adds replaced (.refl _) ?_)
      ?_ found ?_ ?_ ?_ ?_
    · intro other old lookup
      rw [lookup_remember] at lookup
      grind
    · intro enters shape
      simp [remember, nextLocals, enters, shape]
    · simp [remember, Tables.addFunction, Tables.addVariables]
    · intro other dependent different lookup
      exact Nat.lt_irrefl _ (coherent.remembered lookup).2.1
    · intro index isNew isOld
      simp only [remember, Tables.addFunction, Tables.addVariables, Array.size_push] at isOld
      congr
      omega
    · intro index entry isNew there
      have param := isParam_of_replaced (ground.suits.adds coherent.adds) replaced entry
      simp only [remember, Tables.addFunction, Tables.addVariables] at there
      rw [Array.getElem?_append_right isNew, List.getElem?_toArray] at there
      have here := param (List.mem_of_getElem? there)
      exact ⟨here.scope, here.alive, here.plain,
        by simpa [Tables.InUse, coherent.adds.sameTypes] using here.inUse⟩
    · rintro (other | unknown)
      · have same : nextLocals plan function state = state.locals := by simp [nextLocals, other]
        simpa [remember, same] using coherent.external (.inl other)
      · have helps : function.isMain = false := by
          by_contra enters
          have same : id = main := isMain.mp (by simpa using enters)
          simp [← same, found] at unknown
        have before : state.updated.lookup main = none := by
          by_contra replacedBefore
          obtain ⟨old, lookup⟩ := Option.ne_none_iff_exists'.mp replacedBefore
          simp [later.keeps lookup] at unknown
        simpa [remember, nextLocals, helps] using coherent.external (.inr before)

/-! ## Many steps -/

/-- Asking for the replacement of a dependent function takes one step. -/
theorem update_step (ground : plan.Ground base locals main)
    (coherent : Coherent plan base locals main state) (member : id ∈ plan.dependents)
    {function : Function} (known : base.functions[id.index]? = some function) :
    Outcome.Settles (plan.RefusesMain base main) (.nonVoidMain plan.category)
      (state.update plan id) fun (copy, next) => Step plan id function state copy next := by
  have old : id.index < base.functions.size := (Array.getElem?_eq_some_iff.mp known).1
  have full : plan.category.entry = .localOnly → state.locals.isFull := by
    intro shape
    have same : state.locals = locals := by
      cases stateLocals : state.locals with
      | mk internal external =>
        have sameInternal := coherent.internal
        have sameExternal := coherent.external (.inl (by simp [shape]))
        rw [stateLocals] at sameInternal sameExternal
        cases locals
        simp_all
    obtain ⟨inner, internal⟩ := ground.internal (.inl (by simp [Category.alwaysLocal, shape]))
    obtain ⟨outer, external⟩ :=
      ground.external (by simp [Category.alwaysLocal, shape]) (by simp [shape])
    simp [same, Scoped.isFull, internal, external]
  have settled := update_settles (ground.suits.adds coherent.adds) full
    ((coherent.concerns_iff old).mpr member) (coherent.adds.functions known)
  refine settled.imp_left fun ⟨refused, refuses⟩ => ⟨refused, ?_⟩
  have same : id = main := (ground.onlyMain id member function known).mp refuses.2.1
  exact ⟨same ▸ member, function, same ▸ known, refuses⟩

/-- Asking for the replacement of a dependent function gives one that later states still have. -/
theorem update_run (ground : plan.Ground base locals main)
    (coherent : Coherent plan base locals main state) (member : id ∈ plan.dependents) :
    Outcome.Settles (plan.RefusesMain base main) (.nonVoidMain plan.category)
      (state.update plan id) fun (copy, next) =>
        Coherent plan base locals main next ∧ Before main state next ∧
          next.updated.lookup id = some copy := by
  obtain ⟨function, known⟩ := ground.known id member
  refine (update_step ground coherent member known).imp fun ⟨copy, next⟩ step => ?_
  obtain ⟨later, found⟩ := step.before coherent (ground.onlyMain id member function known)
  exact ⟨step.coherent ground coherent member known, later, found⟩

/-- Asking for several replacements gives all of them, and later states still have them. -/
theorem updateAll_run (ground : plan.Ground base locals main)
    (coherent : Coherent plan base locals main state) {ids : List FunctionId}
    (members : ∀ id ∈ ids, id ∈ plan.dependents) :
    Outcome.Settles (plan.RefusesMain base main) (.nonVoidMain plan.category)
      (state.updateAll plan ids) fun next =>
        Coherent plan base locals main next ∧ Before main state next ∧
          ∀ id ∈ ids, ∃ copy, next.updated.lookup id = some copy := by
  induction ids generalizing state with
  | nil => exact .ok ⟨coherent, .refl main state, by simp⟩
  | cons id ids inductionHypothesis =>
    rw [List.forall_mem_cons] at members
    refine (update_run ground coherent members.1).bind ?_
    rintro ⟨copy, middle⟩ ⟨middleCoherent, earlier, found⟩
    refine (inductionHypothesis middleCoherent members.2).imp ?_
    rintro next ⟨nextCoherent, later, rest⟩
    refine ⟨nextCoherent, earlier.trans later, ?_⟩
    rw [List.forall_mem_cons]
    exact ⟨⟨copy, later.keeps found⟩, rest⟩

/-! ## The instance of a function -/

end Threading

namespace Plan

/-- Whether the entry point works with a local variable. -/
def hasLocal (plan : Plan) : Bool := plan.category.alwaysLocal || plan.outer.isSome

variable {gathering : Gathering} {before after : Tables} {first second : Scoped VariableId}
  {id : FunctionId} {holder : VariableId}

/-- The instance of a function stays the same while the tables grow. -/
theorem instanceOf_extends (extended : before.Extends after)
    (internal : second.internal = first.internal)
    (found : instanceOf gathering before first id = .ok holder) :
    instanceOf gathering after second id = .ok holder := by
  simp only [instanceOf, Outcome.bind_eq_ok_iff, Tables.functionAt_eq_ok_iff] at found ⊢
  obtain ⟨function, known, works⟩ := found
  refine ⟨function, extended.functions known, ?_⟩
  rw [internal]
  split at works
  case isTrue isLocal =>
    rw [if_pos isLocal]
    exact works
  case isFalse isParam =>
    rw [if_neg isParam]
    cases head : function.params.head? with
    | none => simp [head] at works
    | some param =>
      simp only [head, Outcome.bind_eq_ok_iff, Tables.variableAt_eq_ok_iff] at works ⊢
      obtain ⟨entry, entryKnown, typed⟩ := works
      exact ⟨entry, extended.vars entryKnown, typed⟩

/-- A function without a local variable works with its first parameter. -/
theorem instanceOf_param {plan : Plan} {entry : Function}
    (known : before.functions[id.index]? = some entry)
    (noLocal : (entry.isMain && plan.hasLocal) = false)
    (works : instanceOf plan.toGathering before first id = .ok holder) :
    entry.params.head?.map Param.variableId = some holder := by
  have entryOk : before.functionAt id = .ok entry := by simpa using known
  simp only [instanceOf, entryOk, Outcome.ok_bind] at works
  rw [if_neg (by simpa [hasLocal] using noLocal)] at works
  cases head : entry.params.head? with
  | none => simp [head] at works
  | some param =>
    simp only [head, Outcome.bind_eq_ok_iff] at works
    obtain ⟨holderEntry, -, works⟩ := works
    split at works
    · exact congrArg some (Except.ok.inj works)
    · simp at works

/-- An entry point with a local variable works with it. -/
theorem instanceOf_local {plan : Plan} {entry : Function}
    (known : before.functions[id.index]? = some entry) (enters : entry.isMain = true)
    (isLocal : plan.hasLocal = true)
    (works : instanceOf plan.toGathering before first id = .ok holder) :
    first.internal = some holder := by
  have entryOk : before.functionAt id = .ok entry := by simpa using known
  simp only [instanceOf, entryOk, enters, Outcome.ok_bind] at works
  rw [if_pos (by simpa [hasLocal] using isLocal)] at works
  cases inside : first.internal with
  | none => simp [inside] at works
  | some internal => simpa [inside] using works

end Plan

namespace Threading

variable {plan : Plan} {base : Tables} {locals : Scoped VariableId} {main : FunctionId}
  {state next final : Threading} {id copy : FunctionId} {function : Function}

/-- The first of the variables that a copy added. -/
theorem getElem?_added {earlier : Tables} {entry : Variable} {news : List Variable}
    {function : Function}
    (kept : ((earlier.addVariables (entry :: news)).addFunction function).2.Adds state.tables) :
    state.tables.vars[earlier.vars.size]? = some entry :=
  kept.vars (by simp [Tables.addFunction, Tables.addVariables])

/-- A copy stays where it was added. -/
theorem getElem?_copy {earlier : Tables} {news : List Variable} {function : Function}
    (kept : ((earlier.addVariables news).addFunction function).2.Adds state.tables) :
    state.tables.functions[earlier.functions.size]? = some function :=
  kept.functions (by simp [Tables.addFunction, Tables.addVariables])

/-- A helper that was replaced takes a reference to the instance as its first parameter. -/
theorem Made.helper (made : Made plan base state id function copy)
    (helps : function.isMain = false) : ∃ holder : VariableId,
      base.vars.size ≤ holder.index ∧ base.functions.size ≤ copy.index ∧
      state.tables.vars[holder.index]? = some plan.helperEntry ∧
      state.tables.functions[copy.index]? = some (function.prepend ⟨holder, .input⟩) := by
  cases made with
  | stays enters => simp [helps] at enters
  | @copied earlier _ _ since replaced kept =>
    cases replaced with
    | helper =>
      exact ⟨⟨earlier.vars.size⟩, since.size_vars, since.size_functions, getElem?_added kept,
        getElem?_copy kept⟩
    | returning enters | fieldParams enters | textureParams enters | indexParam enters
    | structParam enters => simp [helps] at enters

/-- An entry point without a local variable is handed the instance. -/
theorem Made.handed (made : Made plan base state id function copy)
    (enters : function.isMain = true) (handed : plan.hasLocal = false) : ∃ holder : VariableId,
      base.vars.size ≤ holder.index ∧ base.functions.size ≤ copy.index ∧
      state.tables.vars[holder.index]? = some plan.structEntry ∧
      state.tables.functions[copy.index]? = some (function.prepend ⟨holder, .input⟩) := by
  have shape : plan.category.entry = .structParam := by
    simpa [Plan.hasLocal, Category.alwaysLocal] using (Bool.or_eq_false_iff.mp handed).1
  cases made with
  | stays _ other => simp [shape] at other
  | @copied earlier _ _ since replaced kept =>
    cases replaced with
    | helper helps => simp [helps] at enters
    | structParam =>
      exact ⟨⟨earlier.vars.size⟩, since.size_vars, since.size_functions, getElem?_added kept,
        getElem?_copy kept⟩
    | returning _ other | fieldParams _ other | textureParams _ other | indexParam _ other =>
      simp [shape] at other

/-- A replaced function is an entry point just in case the function was one. -/
theorem Made.isMain (made : Made plan base state id function copy)
    (adds : base.Adds state.tables) (known : base.functions[id.index]? = some function) :
    ∃ replaced, state.tables.functions[copy.index]? = some replaced ∧
      replaced.isMain = function.isMain := by
  cases made with
  | stays => exact ⟨function, adds.functions known, rfl⟩
  | copied since replaced kept =>
    refine ⟨_, getElem?_copy kept, ?_⟩
    cases replaced <;> rfl

/-- The instance that the replacement of a function works with. -/
def holder (plan : Plan) (state : Threading) (id : FunctionId) : VariableId :=
  (Plan.instanceOf plan.toGathering state.tables state.locals
    (state.replacement id)).toOption.getD ⟨0⟩

/-- The replacement of a dependent function has an instance, which was not gathered itself. -/
theorem Coherent.instanceOf_eq (coherent : Coherent plan base locals main state)
    (ground : plan.Ground base locals main) (member : id ∈ plan.dependents)
    (found : state.updated.lookup id = some copy) :
    Plan.instanceOf plan.toGathering state.tables state.locals copy =
        .ok (state.holder plan id) ∧ state.holder plan id ∉ plan.members := by
  obtain ⟨function, known⟩ := ground.known id member
  have made := coherent.made member known found
  obtain ⟨replaced, copyKnown, sameMain⟩ := made.isMain coherent.adds known
  have copyOk : state.tables.functionAt copy = .ok replaced := by simpa using copyKnown
  have fresh {new : VariableId} (isNew : base.vars.size ≤ new.index) : new ∉ plan.members :=
    fun old => Nat.not_lt.mpr isNew (ground.oldMembers new old)
  -- It is enough to find some instance that is not gathered.
  suffices works : ∃ holder, Plan.instanceOf plan.toGathering state.tables state.locals copy =
      .ok holder ∧ holder ∉ plan.members by
    obtain ⟨holder, works, outside⟩ := works
    have same : state.holder plan id = holder := by
      simp [Threading.holder, replacement, found, works, Except.toOption]
    exact same ▸ ⟨works, outside⟩
  -- A function that is handed an instance has it as its first parameter.
  have handed {entry : Variable} {new : VariableId} (isNew : base.vars.size ≤ new.index)
      (there : state.tables.vars[new.index]? = some entry) (typed : entry.type = plan.internal)
      (copied : state.tables.functions[copy.index]? = some (function.prepend ⟨new, .input⟩))
      (param : (function.isMain && plan.hasLocal) = false) :
      ∃ holder, Plan.instanceOf plan.toGathering state.tables state.locals copy = .ok holder ∧
        holder ∉ plan.members := by
    obtain rfl : replaced = function.prepend ⟨new, .input⟩ := by simpa [copyKnown] using copied
    have entryOk : state.tables.variableAt new = .ok entry := by simpa using there
    refine ⟨new, ?_, fresh isNew⟩
    simp only [Plan.instanceOf, copyOk, sameMain, Outcome.ok_bind]
    rw [if_neg (by simpa [Plan.hasLocal] using param)]
    simp [Function.prepend, entryOk, typed]
  by_cases enters : function.isMain = true
  · by_cases isLocal : plan.hasLocal = true
    · obtain ⟨holder, internal⟩ := ground.internal (by simpa [Plan.hasLocal] using isLocal)
      refine ⟨holder, ?_, ground.freshLocals holder (.inl internal)⟩
      simp only [Plan.instanceOf, copyOk, sameMain, enters, Outcome.ok_bind]
      rw [if_pos (by simpa [Plan.hasLocal] using isLocal), coherent.internal, internal]
      rfl
    · have isParam : plan.hasLocal = false := by simpa using isLocal
      obtain ⟨new, isNew, -, there, copied⟩ := made.handed enters isParam
      refine handed isNew there ?_ copied (by simp [isParam])
      have sameLayout : plan.outer = none := by
        simpa using (Bool.or_eq_false_iff.mp isParam).2
      simp [Plan.structEntry, Gathering.external, sameLayout]
  · have helps : function.isMain = false := by simpa using enters
    obtain ⟨new, isNew, -, there, copied⟩ := made.helper helps
    exact handed isNew there rfl copied (by simp [helps])

/-- The instance of a function stays the same once the function is replaced. -/
theorem Before.holder_eq (later : Before main state next)
    (coherent : Coherent plan base locals main state) (ground : plan.Ground base locals main)
    (member : id ∈ plan.dependents) (found : state.updated.lookup id = some copy) :
    next.holder plan id = state.holder plan id := by
  have works := (coherent.instanceOf_eq ground member found).1
  have still := Plan.instanceOf_extends later.adds.toExtends later.internal works
  simp [Threading.holder, replacement, later.keeps found, still, Except.toOption]

/-- The replacement of a function is the one that is remembered. -/
theorem replacement_of_lookup (found : state.updated.lookup id = some copy) :
    state.replacement id = copy := by
  simp [replacement, found]

/-- A replacement stays the same in later states. -/
theorem Before.replacement_eq (later : Before main state next)
    (found : state.updated.lookup id = some copy) :
    next.replacement id = state.replacement id := by
  rw [replacement_of_lookup (later.keeps found), replacement_of_lookup found]

/-! ## Calls -/

/-- In every later state, the calls of a body were changed by one substitution. -/
theorem threadCalls_run (ground : plan.Ground base locals main)
    (coherent : Coherent plan base locals main state) {body : Block}
    (closed : ∀ callee ∈ Block.calls body, callee ∈ plan.dependents → id ∈ plan.dependents) :
    Outcome.Settles (plan.RefusesMain base main) (.nonVoidMain plan.category)
      (state.threadCalls plan id body) fun (threaded, next) =>
        Coherent plan base locals main next ∧ Before main state next ∧
          ∀ final, Before main next final → threaded =
            Block.subst body (plan.callSubstitution final (final.holder plan id)) := by
  have dependentCall {callee : FunctionId}
      (called : callee ∈ (Block.calls body).filter plan.dependents.contains) :
      callee ∈ Block.calls body ∧ callee ∈ plan.dependents := by
    simpa using List.mem_filter.mp called
  unfold threadCalls
  split
  case h_1 none =>
    refine .ok ⟨coherent, .refl main state, fun final _ => ?_⟩
    refine (Block.subst_eq_self (fun callee called => ?_) fun _ _ => rfl).symm
    have independent : callee ∉ plan.dependents := by
      simpa using List.filter_eq_nil_iff.mp none callee called
    funext args
    simp [Plan.callSubstitution, independent]
  case h_2 first rest some =>
    have dependent : ∀ callee ∈ first :: rest, callee ∈ Block.calls body ∧
        callee ∈ plan.dependents := fun callee member => dependentCall (some ▸ member)
    rw [List.forall_mem_cons] at dependent
    have owner : id ∈ plan.dependents := closed first dependent.1.1 dependent.1.2
    refine (update_run ground coherent dependent.1.2).bind ?_
    rintro ⟨firstCopy, one⟩ ⟨oneCoherent, toOne, firstFound⟩
    refine (update_run ground oneCoherent owner).bind ?_
    rintro ⟨caller, two⟩ ⟨twoCoherent, toTwo, ownerFound⟩
    obtain ⟨works, -⟩ := twoCoherent.instanceOf_eq ground owner ownerFound
    simp only [works, Outcome.ok_bind]
    refine (updateAll_run ground twoCoherent fun callee member =>
      (dependent.2 callee member).2).bind ?_
    rintro next ⟨nextCoherent, toNext, restFound⟩
    refine .ok ⟨nextCoherent, toOne.trans (toTwo.trans toNext), fun final toFinal => ?_⟩
    have sameHolder : final.holder plan id = two.holder plan id :=
      (toNext.trans toFinal).holder_eq twoCoherent ground owner ownerFound
    refine Block.subst_congr (fun callee called => ?_) fun _ _ => rfl
    funext args
    simp only [Plan.callSubstitution, sameHolder]
    split
    case isTrue member =>
      -- Every dependent callee was replaced by now, so its replacement does not change any more.
      have inList : callee ∈ first :: rest := by
        rw [← some]
        exact List.mem_filter.mpr ⟨called, member⟩
      have known : ∃ copy, next.updated.lookup callee = .some copy := by
        rcases List.mem_cons.mp inList with rfl | later
        · exact ⟨firstCopy, toNext.keeps (toTwo.keeps firstFound)⟩
        · exact restFound callee later
      obtain ⟨copy, found⟩ := known
      rw [toFinal.replacement_eq found]
    case isFalse => rfl

end Threading

end ShaderPipeline
