import ShaderPipeline.Proofs.Tables
import ShaderPipeline.Threading.Entry

/-!
# Replacing one function

`Replaced` says once what becomes of a dependent function: which variables are
created for it and which signature it gets. `update_settles` is the step lemma
of threading: asking for a replacement finds the remembered one, makes one as
`Replaced` says, or refuses an entry point that returns a value.
-/

namespace ShaderPipeline

namespace Plan

/-- The reference to an instance that a helper takes as its first parameter. -/
def helperEntry (plan : Plan) : Variable where
  name := plan.category.instanceName .internal
  type := plan.internal
  scope := .parameter
  reference := some (if plan.outer.isNone then plan.category.externalSpace else .thread)

/-- The struct that the entry point takes as its first parameter. -/
def structEntry (plan : Plan) : Variable where
  name := plan.category.instanceName (if plan.outer.isNone then .internal else .external)
  type := plan.external
  scope := .parameter
  reference := if plan.category.isIn then none else some plan.category.externalSpace

/-- The index that the entry point takes as its first parameter. -/
def indexEntry (plan : Plan) : Variable where
  name := plan.category.instanceName .external
  type := .uint
  precision := .high
  scope := .parameter
  reference := some plan.category.externalSpace

/-- The parameter that stands for a field. -/
def fieldEntry (field : Field) : Variable where
  name := field.name
  type := field.type
  precision := field.precision
  builtIn := field.builtIn
  scope := .parameter

end Plan

/-- A variable that a function can take as a parameter. -/
structure Variable.IsParam (tables : Tables) (entry : Variable) : Prop where
  scope : entry.scope = .parameter
  alive : entry.eliminated = false
  plain : entry.initializer = none
  inUse : tables.InUse entry.type

/-- The parameter that one half of a slot points at. -/
def TextureSlot.halfEntry (slot : TextureSlot) (half : Field) (handle : TypeId) : Variable where
  name := slot.paramName half
  type := handle
  scope := .parameter

/-- A slot whose environment has two halves, each a pointer to a type in use. -/
def TextureSlot.Ready (tables : Tables) (slot : TextureSlot) : Prop :=
  ∃ name first second, tables.types[slot.env.index]? = some (.struct name [first, second]) ∧
    ∀ half ∈ [first, second], ∃ pointer handle,
      tables.types[half.type.index]? = some pointer ∧ pointer.element? = some handle ∧
        tables.InUse handle

/-- The first type is a pointer to the second one. -/
def Tables.PointsAt (tables : Tables) (type handle : TypeId) : Prop :=
  ∃ pointer, tables.types[type.index]? = some pointer ∧ pointer.element? = some handle

/-- The parameters for several slots: for every slot, what the two halves of its environment point
at. -/
inductive TextureSlot.Halves (tables : Tables) : List TextureSlot → List Variable → Prop where
  | nil : Halves tables [] []
  | cons {slot : TextureSlot} {slots : List TextureSlot} {name : Name} {first second : Field}
      {firstHandle secondHandle : TypeId} {news : List Variable}
      (env : tables.types[slot.env.index]? = some (.struct name [first, second]))
      (firstPoints : tables.PointsAt first.type firstHandle)
      (secondPoints : tables.PointsAt second.type secondHandle)
      (rest : Halves tables slots news) :
      Halves tables (slot :: slots)
        (slot.halfEntry first firstHandle :: slot.halfEntry second secondHandle :: news)

namespace TextureSlot.Halves

variable {before after tables : Tables} {slots : List TextureSlot} {news : List Variable}

/-- What the halves of slots point at depends on the types only. -/
theorem congr (halves : Halves before slots news) (same : after.types = before.types) :
    Halves after slots news := by
  induction halves with
  | nil => exact .nil
  | cons env firstPoints secondPoints _ inductionHypothesis =>
    exact .cons (by rw [same]; exact env) (by simpa only [Tables.PointsAt, same] using firstPoints)
      (by simpa only [Tables.PointsAt, same] using secondPoints) inductionHypothesis

/-- Every slot takes two parameters. -/
theorem length (halves : Halves tables slots news) : news.length = 2 * slots.length := by
  induction halves with
  | nil => rfl
  | cons _ _ _ _ inductionHypothesis =>
    simp only [List.length_cons, inductionHypothesis]
    omega

end TextureSlot.Halves

/-- The tables hold what a gathered category refers to. -/
structure Gathering.Suits (gathering : Gathering) (tables : Tables) : Prop where
  internal : ∃ name fields, tables.types[gathering.internal.index]? = some (.struct name fields)
  external : ∃ name fields, tables.types[gathering.external.index]? = some (.struct name fields)
  uint : tables.InUse .uint
  /-- Fields that become parameters have types in use. -/
  fieldTypes : gathering.category.entry = .fieldParams → ∀ name fields,
    tables.types[gathering.external.index]? = some (.struct name fields) →
      ∀ field ∈ fields, tables.InUse field.type
  /-- Fields that hold texture environments are made of complete slots. -/
  slots : gathering.category.entry = .textureParams → ∀ name fields,
    tables.types[gathering.external.index]? = some (.struct name fields) →
      ∀ slot ∈ TextureSlot.ofFields tables fields, slot.Ready tables

/-- The slots of a gathered category's external struct. -/
def Gathering.slots (gathering : Gathering) (tables : Tables) : List TextureSlot :=
  TextureSlot.ofFields tables ((tables.fieldsOf gathering.external).toOption.getD [])

/-- The slots of a category are those of its external struct. -/
theorem Gathering.slots_eq {gathering : Gathering} {tables : Tables} {name : Name}
    {fields : List Field}
    (struct : tables.types[gathering.external.index]? = some (.struct name fields)) :
    gathering.slots tables = TextureSlot.ofFields tables fields := by
  simp [slots, Tables.fieldsOf_eq_ok_iff.mpr ⟨name, struct⟩, Except.toOption]

namespace Plan

/-- Whether the entry point is refused: it would have to return a struct, and returns a value. -/
def Refuses (plan : Plan) (function : Function) : Prop :=
  plan.category.entry = .returnsStruct ∧ function.isMain = true ∧ function.returnType ≠ .void

/-- The new variables and the new signature that replace a function. -/
inductive Replaced (plan : Plan) (tables : Tables) (function : Function) :
    List Variable → Function → Prop where
  | helper (helps : function.isMain = false) :
      Replaced plan tables function [plan.helperEntry]
        (function.prepend ⟨⟨tables.vars.size⟩, .input⟩)
  | returning (enters : function.isMain = true) (shape : plan.category.entry = .returnsStruct)
      (void : function.returnType = .void) :
      Replaced plan tables function [] (function.returning plan.external)
  | fieldParams (enters : function.isMain = true) (shape : plan.category.entry = .fieldParams)
      {name : Name} {fields : List Field}
      (struct : tables.types[plan.external.index]? = some (.struct name fields)) :
      Replaced plan tables function (fields.map fieldEntry)
        (function.append (tables.nextParams fields.length))
  | textureParams (enters : function.isMain = true) (shape : plan.category.entry = .textureParams)
      {name : Name} {fields : List Field} {news : List Variable}
      (struct : tables.types[plan.external.index]? = some (.struct name fields))
      (halves : TextureSlot.Halves tables (TextureSlot.ofFields tables fields) news)
      (params : ∀ entry ∈ news, entry.IsParam tables) :
      Replaced plan tables function news (function.append (tables.nextParams news.length))
  | indexParam (enters : function.isMain = true) (shape : plan.category.entry = .indexParam) :
      Replaced plan tables function [plan.indexEntry]
        (function.prepend ⟨⟨tables.vars.size⟩, .input⟩)
  | structParam (enters : function.isMain = true) (shape : plan.category.entry = .structParam) :
      Replaced plan tables function [plan.structEntry]
        (function.prepend ⟨⟨tables.vars.size⟩, .input⟩)

end Plan

/-- Records the field of every slot for the two parameters that the slot takes. -/
def Reflection.recordSlots (reflection : Reflection) : List TextureSlot → List Param → Reflection
  | slot :: slots, texture :: sampler :: params =>
    ((reflection.record texture.variableId slot.field.name.text).record sampler.variableId
      slot.field.name.text).recordSlots slots params
  | _, _ => reflection

namespace Threading

variable {plan : Plan} {state : Threading}

/-! ## Creating parameters -/

/-- A parameter is created for every field of a type in use. -/
theorem createFieldParams_eq {tables : Tables} {fields : List Field}
    (inUse : ∀ field ∈ fields, tables.InUse field.type) :
    createFieldParams tables fields =
      .ok (tables.nextParams fields.length, tables.addVariables (fields.map Plan.fieldEntry)) := by
  induction fields generalizing tables with
  | nil => simp [createFieldParams, Tables.nextParams]
  | cons field fields inductionHypothesis =>
    have head : tables.declare (Plan.fieldEntry field) =
        .ok (⟨tables.vars.size⟩, tables.addVariables [Plan.fieldEntry field]) :=
      Tables.declare_eq (Plan.fieldEntry field) (inUse field (by simp))
    have tail := @inductionHypothesis (tables.addVariables [Plan.fieldEntry field])
      fun other member => inUse other (by simp [member])
    rw [Tables.addVariables_addVariables, List.singleton_append] at tail
    rw [List.length_cons, Tables.nextParams_succ (Plan.fieldEntry field), List.map_cons]
    simp only [Plan.fieldEntry] at head tail ⊢
    simp only [createFieldParams, head, tail, Outcome.ok_bind, Outcome.pure_eq_ok]

/-- A parameter of the type that it points at is created for one half of a slot, and recorded. -/
theorem createHalf_eq (state : Threading) (slot : TextureSlot) {half : Field} {pointer : Ty}
    {handle : TypeId}
    (known : state.tables.types[half.type.index]? = some pointer)
    (points : pointer.element? = some handle) (used : state.tables.InUse handle) :
    state.createHalf slot half = .ok (⟨⟨state.tables.vars.size⟩, .input⟩,
      { state with
        tables := state.tables.addVariables [slot.halfEntry half handle]
        reflection :=
          state.reflection.record ⟨state.tables.vars.size⟩ slot.field.name.text }) := by
  have found : state.tables.typeAt half.type = .ok pointer := by simpa using known
  simp [createHalf, found, points, Tables.createParam_eq _ _ used, TextureSlot.halfEntry]

/-- Creating the parameters of complete slots succeeds, with two new parameters for every slot, which
are recorded under the name of its field. -/
theorem createSlots_eq {slots : List TextureSlot}
    (ready : ∀ slot ∈ slots, slot.Ready state.tables) :
    ∃ news,
      state.createSlots slots = .ok (state.tables.nextParams (2 * slots.length), { state with
        tables := state.tables.addVariables news
        reflection :=
          state.reflection.recordSlots slots (state.tables.nextParams (2 * slots.length)) }) ∧
      TextureSlot.Halves state.tables slots news ∧ ∀ entry ∈ news, entry.IsParam state.tables := by
  induction slots generalizing state with
  | nil =>
    exact ⟨[], by simp [createSlots, Tables.nextParams, Reflection.recordSlots], .nil, by simp⟩
  | cons slot slots inductionHypothesis =>
    obtain ⟨name, first, second, known, halves⟩ := ready slot (by simp)
    obtain ⟨firstPointer, firstHandle, firstKnown, firstPoints, firstUsed⟩ := halves first (by simp)
    obtain ⟨secondPointer, secondHandle, secondKnown, secondPoints, secondUsed⟩ :=
      halves second (by simp)
    have fields : state.tables.fieldsOf slot.env = .ok [first, second] :=
      Tables.fieldsOf_eq_ok_iff.mpr ⟨name, known⟩
    -- The halves are created one after the other, and the other slots from there on.
    have one := createHalf_eq state slot firstKnown firstPoints firstUsed
    have two := createHalf_eq { state with
        tables := state.tables.addVariables [slot.halfEntry first firstHandle]
        reflection := state.reflection.record ⟨state.tables.vars.size⟩ slot.field.name.text }
      slot secondKnown secondPoints secondUsed
    obtain ⟨news, rest, halves, params⟩ := @inductionHypothesis { state with
        tables := (state.tables.addVariables [slot.halfEntry first firstHandle]).addVariables
          [slot.halfEntry second secondHandle]
        reflection := (state.reflection.record ⟨state.tables.vars.size⟩
          slot.field.name.text).record
            ⟨(state.tables.addVariables [slot.halfEntry first firstHandle]).vars.size⟩
            slot.field.name.text }
      fun other member => ready other (by simp [member])
    refine ⟨slot.halfEntry first firstHandle :: slot.halfEntry second secondHandle :: news, ?_,
      .cons known ⟨_, firstKnown, firstPoints⟩ ⟨_, secondKnown, secondPoints⟩
        (halves.congr rfl), ?_⟩
    · have count : 2 * (slot :: slots).length = 2 * slots.length + 1 + 1 := by simp; omega
      rw [count, Tables.nextParams_succ (slot.halfEntry first firstHandle),
        Tables.nextParams_succ (slot.halfEntry second secondHandle)]
      have complete : ensure (decide ([first, second].length = 2)) = .ok () := rfl
      simp only [createSlots, createHalves, fields, complete, one, two, rest, Outcome.ok_bind,
        Outcome.pure_eq_ok]
      simp [Reflection.recordSlots]
    · simp only [List.forall_mem_cons]
      exact ⟨⟨rfl, rfl, rfl, firstUsed⟩, ⟨rfl, rfl, rfl, secondUsed⟩,
        fun entry member => ⟨(params entry member).scope, (params entry member).alive,
          (params entry member).plain, (params entry member).inUse⟩⟩

/-! ## The step -/

/-- The variables of the entry point after a function was replaced: an index parameter becomes the
external one. -/
def nextLocals (plan : Plan) (function : Function) (state : Threading) : Scoped VariableId :=
  if function.isMain && plan.category.entry = .indexParam then
    { state.locals with external := some ⟨state.tables.vars.size⟩ }
  else
    state.locals

/-- The recorded names after a function was replaced: an entry point that takes textures records the
fields that they stand for. -/
def nextReflection (plan : Plan) (function : Function) (state : Threading) : Reflection :=
  if function.isMain && plan.category.entry = .textureParams then
    state.reflection.recordSlots (plan.slots state.tables)
      (state.tables.nextParams (2 * (plan.slots state.tables).length))
  else
    state.reflection

/-- What asking for the replacement of a function can do. -/
inductive Step (plan : Plan) (id : FunctionId) (function : Function) (state : Threading) :
    FunctionId → Threading → Prop where
  /-- The replacement was made before. -/
  | remembered {known : FunctionId} (found : state.updated.lookup id = some known) :
      Step plan id function state known state
  /-- The entry point keeps its signature. -/
  | stays (new : state.updated.lookup id = none) (enters : function.isMain = true)
      (shape : plan.category.entry = .localOnly) :
      Step plan id function state id (state.remember id id)
  /-- A copy with another signature takes the place of the function. -/
  | copied {news : List Variable} {copy : Function} (new : state.updated.lookup id = none)
      (replaced : plan.Replaced state.tables function news copy) :
      Step plan id function state ⟨state.tables.functions.size⟩
        (Threading.remember
          { tables := ((state.tables.addVariables news).addFunction copy).2
            reflection := nextReflection plan function state
            locals := nextLocals plan function state
            updated := state.updated }
          id ⟨state.tables.functions.size⟩)

/-- The copy of a helper. -/
theorem copyHelper_eq {id : FunctionId} {function : Function} (suits : plan.Suits state.tables)
    (known : state.tables.functions[id.index]? = some function) :
    state.copyHelper plan id = .ok (⟨state.tables.functions.size⟩, { state with
      tables := ((state.tables.addVariables [plan.helperEntry]).addFunction
        (function.prepend ⟨⟨state.tables.vars.size⟩, .input⟩)).2 }) := by
  obtain ⟨name, fields, internal⟩ := suits.internal
  have param := Tables.createParam_eq (plan.category.instanceName .internal) .notApplicable
    ⟨_, internal, rfl⟩
  have clone := Tables.cloneFunction_eq (state.tables.addVariables [plan.helperEntry])
    (·.prepend ⟨⟨state.tables.vars.size⟩, .input⟩) known
  simp only [Plan.helperEntry] at clone ⊢
  simp only [copyHelper, param, Tables.markReference_last, clone, Outcome.ok_bind,
    Outcome.pure_eq_ok]
  rfl

/-- The entry point gets a new signature, keeps it, or is refused. -/
theorem enterMain_settles {id : FunctionId} {function : Function} (suits : plan.Suits state.tables)
    (full : plan.category.entry = .localOnly → state.locals.isFull)
    (known : state.tables.functions[id.index]? = some function) (enters : function.isMain = true)
    (new : state.updated.lookup id = none) :
    Outcome.Settles (plan.Refuses function) (.nonVoidMain plan.category)
      (state.enterMain plan id) fun (copy, next) =>
        Step plan id function state copy (next.remember id copy) := by
  obtain ⟨name, fields, external⟩ := suits.external
  have fieldsOk : state.tables.fieldsOf plan.external = .ok fields :=
    Tables.fieldsOf_eq_ok_iff.mpr ⟨name, external⟩
  have functionOk : state.tables.functionAt id = .ok function := by simpa using known
  have sameLocals (other : plan.category.entry ≠ .indexParam) :
      nextLocals plan function state = state.locals := by simp [nextLocals, other]
  have sameNames (other : plan.category.entry ≠ .textureParams) :
      nextReflection plan function state = state.reflection := by simp [nextReflection, other]
  unfold enterMain
  split
  case h_1 shape =>
    simp only [functionOk, Outcome.ok_bind]
    split
    case isTrue void =>
      rw [Tables.cloneFunction_eq state.tables _ known]
      refine .ok ?_
      have step := Step.copied new (Plan.Replaced.returning enters shape void)
      simpa [sameLocals (by simp [shape]), sameNames (by simp [shape])] using step
    case isFalse value => exact .inl ⟨rfl, shape, enters, value⟩
  case h_2 shape =>
    have params := createFieldParams_eq (suits.fieldTypes shape name fields external)
    have clone := Tables.cloneFunction_eq
      (state.tables.addVariables (fields.map Plan.fieldEntry))
      (·.append (state.tables.nextParams fields.length)) known
    simp only [fieldsOk, params, clone, Outcome.ok_bind, Outcome.pure_eq_ok]
    have step := Step.copied new (Plan.Replaced.fieldParams enters shape external)
    rw [sameLocals (by simp [shape]), sameNames (by simp [shape])] at step
    exact .ok step
  case h_3 shape =>
    obtain ⟨news, slotsOk, halves, params⟩ :=
      createSlots_eq (suits.slots shape name fields external)
    have clone := Tables.cloneFunction_eq (state.tables.addVariables news)
      (·.append (state.tables.nextParams news.length)) known
    have names : nextReflection plan function state = state.reflection.recordSlots
        (TextureSlot.ofFields state.tables fields) (state.tables.nextParams news.length) := by
      simp [nextReflection, enters, shape, Gathering.slots_eq external, halves.length]
    rw [← halves.length] at slotsOk
    simp only [fieldsOk, slotsOk, clone, Outcome.ok_bind, Outcome.pure_eq_ok]
    have step := Step.copied new
      (Plan.Replaced.textureParams enters shape external halves params)
    rw [sameLocals (by simp [shape]), names] at step
    exact .ok step
  case h_4 shape =>
    have param := Tables.createParam_eq (plan.category.instanceName .external) .high suits.uint
    have clone := Tables.cloneFunction_eq (state.tables.addVariables [plan.indexEntry])
      (·.prepend ⟨⟨state.tables.vars.size⟩, .input⟩) known
    simp only [Plan.indexEntry] at clone
    simp only [createIndexParam, param, Tables.markReference_last, clone, Outcome.ok_bind,
      Outcome.pure_eq_ok]
    have step := Step.copied new (Plan.Replaced.indexParam enters shape)
    rw [sameNames (by simp [shape])] at step
    simp only [nextLocals, enters, shape, decide_true, Bool.and_self, if_true] at step
    exact .ok step
  case h_5 shape =>
    have complete : ensure state.locals.isFull = .ok () := ensure_eq_ok_iff.mpr (full shape)
    simp only [complete, Outcome.ok_bind, Outcome.pure_eq_ok]
    exact .ok (.stays new enters shape)
  case h_6 shape =>
    have param := Tables.createParam_eq
      (plan.category.instanceName (if plan.outer.isNone then .internal else .external))
      .notApplicable ⟨_, external, rfl⟩
    have struct : createStructParam plan state.tables = .ok (⟨⟨state.tables.vars.size⟩, .input⟩,
        state.tables.addVariables [plan.structEntry]) := by
      simp only [createStructParam, param, Plan.structEntry, Outcome.ok_bind, Outcome.pure_eq_ok]
      split
      · rfl
      · simp only [Tables.markReference_last, Outcome.ok_bind]
    have clone := Tables.cloneFunction_eq (state.tables.addVariables [plan.structEntry])
      (·.prepend ⟨⟨state.tables.vars.size⟩, .input⟩) known
    simp only [struct, clone, Outcome.ok_bind, Outcome.pure_eq_ok]
    have step := Step.copied new (Plan.Replaced.structParam enters shape)
    rw [sameLocals (by simp [shape]), sameNames (by simp [shape])] at step
    exact .ok step

/-- Asking for the replacement of a known function that threading is about takes one step, or the
entry point is refused. -/
theorem update_settles {id : FunctionId} {function : Function} (suits : plan.Suits state.tables)
    (full : plan.category.entry = .localOnly → state.locals.isFull)
    (concerned : state.concerns plan id)
    (known : state.tables.functions[id.index]? = some function) :
    Outcome.Settles (plan.Refuses function) (.nonVoidMain plan.category)
      (state.update plan id) fun (copy, next) => Step plan id function state copy next := by
  have functionOk : state.tables.functionAt id = .ok function := by simpa using known
  simp only [update, ensure_eq_ok_iff.mpr concerned, Outcome.ok_bind]
  split
  case h_1 copy remembered => exact .ok (.remembered remembered)
  case h_2 new =>
    simp only [functionOk, Outcome.ok_bind]
    by_cases enters : function.isMain
    · simp only [enters, if_true]
      exact (enterMain_settles suits full known enters new).bind fun _ step => .ok step
    · have helps : function.isMain = false := by simpa using enters
      simp only [helps, copyHelper_eq suits known, Outcome.ok_bind, Outcome.pure_eq_ok]
      have helper : plan.Replaced state.tables function _ _ := .helper helps
      have step := Step.copied new helper
      simp only [nextLocals, nextReflection, helps, Bool.false_and] at step
      exact .ok step

end Threading

end ShaderPipeline
