import ShaderPipeline.Proofs.Returns
import ShaderPipeline.Proofs.Threading.Run

/-!
# The new body of the entry point

The old body of an entry point with a local instance stands in one nested block,
between statements that neither depend on it nor mention a gathered variable.
Those statements can be made once the entry point is replaced, and they stay the
same while threading goes on.
-/

namespace ShaderPipeline

/-- Only an entry point that returns the struct hands outputs over. -/
theorem Category.isOut_eq_false {category : Category} (other : category.entry ≠ .returnsStruct) :
    category.isOut = false := by
  cases category <;> simp_all [Category.entry, Category.isOut]

/-- A category whose entry point returns a struct is one of outputs. -/
theorem Category.isOut_eq_true {category : Category} (returns : category.entry = .returnsStruct) :
    category.isOut = true := by
  cases category <;> simp_all [Category.entry, Category.isOut]

/-- Only structs that are handed over as a whole have a layout of their own. -/
theorem Category.layoutRules_eq_none {category : Category}
    (notReturned : category.entry ≠ .returnsStruct) (notTaken : category.entry ≠ .structParam) :
    category.layoutRules = none := by
  cases category <;> simp_all [Category.entry, Category.layoutRules]

namespace Plan

variable {plan : Plan} {before after : Tables}

/-- The old body as it stands in the new one: an entry point that hands outputs over does so in
place of every bare return. -/
def nest (plan : Plan) (leaving body : Block) : Block :=
  if plan.category.isOut then replaceReturns body leaving else body

/-- Substituting in a nested body is nesting the substituted one. -/
theorem subst_nest (leaving body : Block) (change : Substitution) :
    Block.subst (plan.nest leaving body) change =
      plan.nest (Block.subst leaving change) (Block.subst body change) := by
  unfold nest
  split
  · exact subst_replaceReturns body leaving change
  · rfl

/-- What stands before the old body depends on the types and on the entry point only. -/
theorem prologue_adds {gathering : Gathering} {main : FunctionId} {internal external : VariableId}
    {entering : Block} (adds : before.Adds after)
    (enters : prologue gathering before main internal external = .ok entering) :
    prologue gathering after main internal external = .ok entering := by
  have sameFields (id : TypeId) : after.fieldsOf id = before.fieldsOf id := by
    simp [Tables.fieldsOf, Tables.typeAt, adds.sameTypes]
  have sameSlots (fields : List Field) :
      TextureSlot.ofFields after fields = TextureSlot.ofFields before fields := by
    simp only [TextureSlot.ofFields, Tables.shapeOf_congr adds.sameTypes]
  unfold prologue at enters ⊢
  split at enters
  case h_1 =>
    simp only [copyFieldParams, sameFields, Outcome.bind_eq_ok_iff, Tables.functionAt_eq_ok_iff]
      at enters ⊢
    obtain ⟨fields, fieldsOk, function, known, rest⟩ := enters
    exact ⟨fields, fieldsOk, function, adds.functions known, rest⟩
  case h_2 =>
    simp only [connectTextures, sameFields, sameSlots, Outcome.bind_eq_ok_iff,
      Tables.functionAt_eq_ok_iff] at enters ⊢
    obtain ⟨fields, fieldsOk, function, known, rest⟩ := enters
    exact ⟨fields, fieldsOk, function, adds.functions known, rest⟩
  case h_3 =>
    simp only [Tables.fieldAt, sameFields] at enters ⊢
    exact enters
  case h_4 => exact enters
  case h_5 => exact enters
  case h_6 => exact enters

/-- The new body depends on the types and on the entry point only. -/
theorem wrapMain_adds {locals : Scoped VariableId} {main : FunctionId} {body wrapped : Block}
    (adds : before.Adds after) (wraps : plan.wrapMain before locals main body = .ok wrapped) :
    plan.wrapMain after locals main body = .ok wrapped := by
  unfold wrapMain at wraps ⊢
  split at wraps
  case isTrue isLocal =>
    rw [if_pos isLocal]
    split at wraps
    case h_1 internal external _ _ =>
      simp only [wrapLocal, Outcome.bind_eq_ok_iff] at wraps ⊢
      obtain ⟨entering, enters, rest⟩ := wraps
      exact ⟨entering, prologue_adds adds enters, rest⟩
    case h_2 => simp at wraps
  case isFalse isParam =>
    rw [if_neg isParam]
    split at wraps
    case h_1 => exact wraps
    case h_2 outer internal _ _ =>
      simp only [wrapConverted, Outcome.bind_eq_ok_iff, Tables.functionAt_eq_ok_iff] at wraps ⊢
      obtain ⟨function, known, rest⟩ := wraps
      exact ⟨function, adds.functions known, rest⟩
    case h_3 => simp at wraps

section Wrapping

variable {tables : Tables} {locals : Scoped VariableId} {main : FunctionId}
  {internal external : VariableId} {entering : Block}

/-- The new body of an entry point with a local instance, unless it hands outputs over. -/
theorem wrapMain_in (always : plan.category.alwaysLocal = true) (isIn : plan.category.isOut = false)
    (inside : locals.internal = some internal) (outside : locals.external = some external)
    (enters : prologue plan.toGathering tables main internal external = .ok entering)
    (body : Block) : plan.wrapMain tables locals main body =
      .ok ((.declare internal none :: (entering ++ plan.startValues internal)) ++
        [.block (plan.nest [] body)]) := by
  simp [wrapMain, always, inside, outside, wrapLocal, enters, nest, isIn]

/-- The new body of an entry point that hands outputs over. -/
theorem wrapMain_out (always : plan.category.alwaysLocal = true) (isOut : plan.category.isOut = true)
    (inside : locals.internal = some internal) (outside : locals.external = some external)
    (enters : prologue plan.toGathering tables main internal external = .ok entering)
    (body : Block) : plan.wrapMain tables locals main body =
      .ok ((.declare internal none :: (entering ++ plan.startValues internal)) ++
        .block (plan.nest (epilogue plan.toGathering internal external) body) ::
          epilogue plan.toGathering internal external) := by
  simp [wrapMain, always, inside, outside, wrapLocal, enters, nest, isOut]

/-- The parameters that an entry point got for the fields are copied into them. -/
theorem prologue_fieldParams {fields : List Field} {function : Function} {params : List Param}
    (shape : plan.category.entry = .fieldParams)
    (fieldsOk : tables.fieldsOf plan.internal = .ok fields)
    (copyOk : tables.functionAt main = .ok (function.append params))
    (count : params.length = fields.length) :
    prologue plan.toGathering tables main internal external =
      .ok (params.mapIdx fun position param =>
        .assign (.field (.var internal) position) (.var param.variableId)) := by
  simp [prologue, shape, copyFieldParams, fieldsOk, copyOk, Function.append, count, ensure]

/-- The parameters that an entry point got for the textures are connected to their slots. -/
theorem prologue_textureParams {fields : List Field} {function : Function} {params : List Param}
    (shape : plan.category.entry = .textureParams)
    (fieldsOk : tables.fieldsOf plan.internal = .ok fields)
    (copyOk : tables.functionAt main = .ok (function.append params))
    (count : params.length = 2 * (TextureSlot.ofFields tables fields).length) :
    prologue plan.toGathering tables main internal external =
      .ok (connect internal (TextureSlot.ofFields tables fields) params) := by
  simp [prologue, shape, connectTextures, fieldsOk, copyOk, Function.append, ← count, ensure]

/-- The index is converted to the type of its field. -/
theorem prologue_indexParam {field : Field} {fields : List Field}
    (shape : plan.category.entry = .indexParam)
    (fieldsOk : tables.fieldsOf plan.internal = .ok (field :: fields)) :
    prologue plan.toGathering tables main internal external =
      .ok [.assign (.field (.var internal) 0) (.construct field.type [.var external])] := by
  simp [prologue, shape, Tables.fieldAt, fieldsOk, ShaderPipeline.found]

end Wrapping

/-- A variable that was created between two states of the tables. -/
def New (before after : Tables) (id : VariableId) : Prop :=
  before.vars.size ≤ id.index ∧ id.index < after.vars.size

/-- What stands before and after the old body of an entry point with a local instance, and its new
signature. -/
inductive Surrounds (plan : Plan) (base : Tables) (locals : Scoped VariableId) (tables : Tables)
    (function : Function) (internal : VariableId) : Function → Block → Block → Prop where
  | kept (shape : plan.category.entry = .localOnly) :
      Surrounds plan base locals tables function internal function
        (.declare internal none :: plan.startValues internal) []
  | returning {external : VariableId} (shape : plan.category.entry = .returnsStruct)
      (void : function.returnType = .void) (outside : locals.external = some external) :
      Surrounds plan base locals tables function internal (function.returning plan.external)
        (.declare internal none :: ((if plan.outer.isSome then [.declare external none] else []) ++
          plan.startValues internal))
        (epilogue plan.toGathering internal external)
  | fieldParams {name : Name} {fields : List Field} {params : List Param}
      (shape : plan.category.entry = .fieldParams)
      (struct : tables.types[plan.internal.index]? = some (.struct name fields))
      (count : params.length = fields.length)
      (news : ∀ param ∈ params, New base tables param.variableId) :
      Surrounds plan base locals tables function internal (function.append params)
        (.declare internal none :: (params.mapIdx (fun position param =>
            .assign (.field (.var internal) position) (.var param.variableId)) ++
          plan.startValues internal)) []
  | textureParams {name : Name} {fields : List Field} {params : List Param}
      (shape : plan.category.entry = .textureParams)
      (struct : tables.types[plan.internal.index]? = some (.struct name fields))
      (news : ∀ param ∈ params, New base tables param.variableId) :
      Surrounds plan base locals tables function internal (function.append params)
        (.declare internal none ::
          (connect internal (TextureSlot.ofFields tables fields) params ++
            plan.startValues internal)) []
  | indexParam {external : VariableId} {name : Name} {field : Field} {fields : List Field}
      (shape : plan.category.entry = .indexParam)
      (struct : tables.types[plan.internal.index]? = some (.struct name (field :: fields)))
      (new : New base tables external) :
      Surrounds plan base locals tables function internal (function.prepend ⟨external, .input⟩)
        (.declare internal none ::
          (.assign (.field (.var internal) 0) (.construct field.type [.var external]) ::
            plan.startValues internal)) []
  | converted {outer : OuterLayout} {param : VariableId}
      (shape : plan.category.entry = .structParam) (bridged : plan.outer = some outer)
      (new : New base tables param) (taken : tables.vars[param.index]? = some plan.structEntry) :
      Surrounds plan base locals tables function internal (function.prepend ⟨param, .input⟩)
        [.declare internal none, convert outer param internal] []

section

variable {change : Substitution}

/-- An element of a substituted expression is the substituted element. -/
theorem subst_atPosition (base : Expr) (position : List Nat) :
    (base.atPosition position).subst change = (base.subst change).atPosition position := by
  induction position generalizing base with
  | nil => rfl
  | cons element position inductionHypothesis =>
    exact inductionHypothesis (.index base (.int element))

/-- Connecting textures mentions the instance and the parameters only. -/
theorem subst_connect {holder : VariableId} (keepsHolder : change.symbol holder = .var holder)
    (slots : List TextureSlot) {params : List Param}
    (keeps : ∀ param ∈ params, change.symbol param.variableId = .var param.variableId) :
    Block.subst (connect holder slots params) change = connect holder slots params := by
  fun_induction connect holder slots params with
  | case1 slot slots texture sampler params inductionHypothesis =>
    simp only [List.forall_mem_cons] at keeps
    have rest := inductionHypothesis keeps.2.2
    simp only [Block.subst_cons, Stmt.subst, Expr.subst, TextureSlot.access, subst_atPosition,
      keepsHolder, keeps.1, keeps.2.1, rest]
  | case2 => rfl

/-- A rule about what connecting textures is made of: the instance, ways into it, and addresses of the
parameters. -/
theorem connect_every {rule : Expr → Prop} {holder : VariableId} (slots : List TextureSlot)
    {params : List Param} (isHolder : rule (.var holder))
    (fields : ∀ base position, rule (.field base position))
    (elements : ∀ base position, rule (.index base position)) (consts : ∀ value, rule (.const value))
    (pointers : ∀ param ∈ params, rule (.var param.variableId) ∧
      rule (.addressOf (.var param.variableId))) :
    Block.Every rule (connect holder slots params) := by
  have access (slot : TextureSlot) : (slot.access holder).Every rule := by
    have start : (Expr.field (.var holder) slot.position).Every rule :=
      Expr.every_field.mpr ⟨fields _ _, Expr.every_var.mpr isHolder⟩
    unfold TextureSlot.access
    generalize Expr.field (.var holder) slot.position = expr at start
    induction slot.element generalizing expr with
    | nil => exact start
    | cons element position inductionHypothesis =>
      exact inductionHypothesis _
        (Expr.every_index.mpr ⟨elements _ _, start, Expr.every_const.mpr (consts _)⟩)
  fun_induction connect holder slots params with
  | case1 slot slots texture sampler params inductionHypothesis =>
    simp only [List.forall_mem_cons] at pointers
    have half (position : Nat) {param : VariableId}
        (points : rule (.var param) ∧ rule (.addressOf (.var param))) :
        ∀ root ∈ (Stmt.assign (.field (slot.access holder) position)
          (.addressOf (.var param))).roots, root.Every rule := by
      rw [Stmt.roots_assign, List.forall_mem_cons, List.forall_mem_singleton]
      exact ⟨Expr.every_field.mpr ⟨fields _ _, access slot⟩,
        Expr.every_addressOf.mpr ⟨points.2, Expr.every_var.mpr points.1⟩⟩
    exact Block.every_cons.mpr ⟨half 0 pointers.1,
      Block.every_cons.mpr ⟨half 1 pointers.2.1, inductionHypothesis pointers.2.2⟩⟩
  | case2 => exact Block.every_nil

/-- A rule about what setting start values is made of. -/
theorem startValues_every {rule : Expr → Prop} {holder : VariableId} (isHolder : rule (.var holder))
    (fields : ∀ base position, rule (.field base position)) (consts : ∀ value, rule (.const value)) :
    Block.Every rule (plan.startValues holder) := by
  intro root member
  obtain ⟨stmt, inside, own⟩ := Block.mem_roots.mp member
  obtain ⟨initial, -, rfl⟩ := List.mem_map.mp inside
  rw [Stmt.roots_assign, List.mem_pair] at own
  rcases own with rfl | rfl
  · exact Expr.every_field.mpr ⟨fields _ _, Expr.every_var.mpr isHolder⟩
  · exact Expr.every_const.mpr (consts _)

/-- A rule about what stands around the old body: variables, fields, constants and constructors keep
it, and so do connected textures and the two ways to call the conversion function. -/
theorem Surrounds.every {rule : Expr → Prop} {base tables : Tables} {locals : Scoped VariableId}
    {function entry : Function} {internal : VariableId} {entering leaving : Block}
    (surrounds : Surrounds plan base locals tables function internal entry entering leaving)
    (names : ∀ id, rule (.var id)) (fields : ∀ base position, rule (.field base position))
    (consts : ∀ value, rule (.const value)) (constructs : ∀ type args, rule (.construct type args))
    (connects : plan.category.entry = .textureParams → ∀ slots params,
      Block.Every rule (connect internal slots params))
    (enters : ∀ outer param, plan.category.entry = .structParam → plan.outer = some outer →
      tables.vars[param.index]? = some plan.structEntry →
        rule (.call outer.convert [.var param, .var internal]))
    (leaves : ∀ outer external, plan.category.entry = .returnsStruct → plan.outer = some outer →
      locals.external = some external →
        rule (.call outer.convert [.var internal, .var external])) :
    Block.Every rule entering ∧ Block.Every rule leaving := by
  have name (id : VariableId) : (Expr.var id).Every rule := Expr.every_var.mpr (names id)
  have assigns {position : Nat} {value : Expr} (every : value.Every rule) :
      ∀ root ∈ (Stmt.assign (.field (.var internal) position) value).roots, root.Every rule := by
    rw [Stmt.roots_assign, List.forall_mem_cons, List.forall_mem_singleton]
    exact ⟨Expr.every_field.mpr ⟨fields _ _, name internal⟩, every⟩
  have starts := @startValues_every plan rule internal (names internal) fields consts
  have declares {id : VariableId} {fills : Block} (every : Block.Every rule fills) :
      Block.Every rule (.declare id none :: fills) :=
    Block.every_cons.mpr ⟨by simp, every⟩
  have converts {outer : OuterLayout} {source target : VariableId}
      (obeys : rule (.call outer.convert [.var source, .var target])) :
      ∀ root ∈ (convert outer source target).roots, root.Every rule := by
    rw [convert, Stmt.roots_eval, List.forall_mem_singleton, Expr.every_call]
    exact ⟨obeys, List.forall_mem_cons.mpr ⟨name _, List.forall_mem_singleton.mpr (name _)⟩⟩
  cases surrounds with
  | kept => exact ⟨declares starts, Block.every_nil⟩
  | fieldParams =>
    refine ⟨declares (Block.every_append.mpr ⟨fun root member => ?_, starts⟩), Block.every_nil⟩
    obtain ⟨stmt, inside, own⟩ := Block.mem_roots.mp member
    obtain ⟨position, bound, rfl⟩ := List.mem_mapIdx.mp inside
    exact assigns (name _) root own
  | textureParams shape =>
    exact ⟨declares (Block.every_append.mpr ⟨connects shape _ _, starts⟩), Block.every_nil⟩
  | indexParam =>
    refine ⟨declares (Block.every_cons.mpr ⟨assigns ?_, starts⟩), Block.every_nil⟩
    exact Expr.every_construct.mpr ⟨constructs _ _, List.forall_mem_singleton.mpr (name _)⟩
  | @converted outer param shape bridged new taken =>
    exact ⟨declares (Block.every_cons.mpr ⟨converts (enters outer param shape bridged taken),
      Block.every_nil⟩), Block.every_nil⟩
  | @returning external shape void outside =>
    refine ⟨declares (Block.every_append.mpr ⟨?_, starts⟩), Block.every_append.mpr ⟨?_, ?_⟩⟩
    · split
      · exact declares Block.every_nil
      · exact Block.every_nil
    · cases bridged : plan.outer with
      | none => exact Block.every_nil
      | some outer =>
        exact Block.every_cons.mpr ⟨converts (leaves outer external shape bridged outside),
          Block.every_nil⟩
    · exact Block.every_cons.mpr ⟨by simpa using name external, Block.every_nil⟩

/-- Connecting textures takes assignments only. -/
theorem connect_assigns (holder : VariableId) (slots : List TextureSlot) (params : List Param) :
    ∀ stmt ∈ connect holder slots params, ∃ target value, stmt = .assign target value := by
  fun_induction connect holder slots params with
  | case1 slot slots texture sampler params inductionHypothesis => simpa using inductionHypothesis
  | case2 => simp

/-- A substitution that leaves the instance leaves its start values. -/
theorem subst_startValues {holder : VariableId} (keepsHolder : change.symbol holder = .var holder) :
    Block.subst (plan.startValues holder) change = plan.startValues holder := by
  simp [startValues, Block.subst, Stmt.substAll_eq_map, Stmt.subst, Expr.subst, keepsHolder,
    Function.comp_def]

/-- What stands around the old body mentions the variables of the entry point and new parameters
only. -/
theorem Surrounds.subst_eq {base tables : Tables} {locals : Scoped VariableId}
    {function entry : Function} {internal : VariableId} {entering leaving : Block}
    (surrounds : Surrounds plan base locals tables function internal entry entering leaving)
    (calls : change.call = .call) (keepsInternal : change.symbol internal = .var internal)
    (keepsExternal : ∀ external, locals.external = some external →
      change.symbol external = .var external)
    (keepsNew : ∀ id, New base tables id → change.symbol id = .var id) :
    Block.subst entering change = entering ∧ Block.subst leaving change = leaving := by
  have start := @subst_startValues plan _ _ keepsInternal
  cases surrounds with
  | kept => exact ⟨by simp [Stmt.subst, start], rfl⟩
  | @returning external _ _ outside =>
    have keeps := keepsExternal external outside
    constructor
    · split <;> simp [Stmt.subst, start]
    · unfold epilogue
      cases plan.outer <;>
        simp [convert, Block.subst, Stmt.substAll_eq_map, Stmt.subst, Expr.subst, Expr.substAll,
          calls, keeps, keepsInternal]
  | @fieldParams name fields params _ _ _ news =>
    refine ⟨?_, rfl⟩
    have copies : Block.subst (params.mapIdx fun position param =>
        .assign (.field (.var internal) position) (.var param.variableId)) change =
          params.mapIdx fun position param =>
            .assign (.field (.var internal) position) (.var param.variableId) := by
      rw [Block.subst, Stmt.substAll_eq_map]
      apply List.ext_getElem?
      intro place
      simp only [List.getElem?_map, List.getElem?_mapIdx]
      cases there : params[place]? with
      | none => rfl
      | some param =>
        have keeps := keepsNew _ (news param (List.mem_of_getElem? there))
        simp [Stmt.subst, Expr.subst, keepsInternal, keeps]
    simp [Stmt.subst, start, copies]
  | @textureParams name fields params _ _ news =>
    refine ⟨?_, rfl⟩
    have connects := subst_connect keepsInternal (TextureSlot.ofFields tables fields)
      fun param member => keepsNew _ (news param member)
    simp [Stmt.subst, start, connects]
  | indexParam _ _ new =>
    refine ⟨?_, rfl⟩
    simp [Stmt.subst, Expr.subst, Expr.substAll, start, keepsInternal, keepsNew _ new]
  | converted _ _ new =>
    refine ⟨?_, rfl⟩
    simp [convert, Block.subst, Stmt.substAll_eq_map, Stmt.subst, Expr.subst, Expr.substAll, calls,
      keepsInternal, keepsNew _ new]

end

end Plan

namespace Threading

open Plan (Surrounds New)

variable {plan : Plan} {base : Tables} {locals : Scoped VariableId} {main : FunctionId}
  {state : Threading} {copy : FunctionId} {function : Function}

/-- The parameters that a copy added are new. -/
theorem new_of_nextParams {earlier : Tables} {news : List Variable} {entry : Function}
    (since : base.Adds earlier)
    (kept : ((earlier.addVariables news).addFunction entry).2.Adds state.tables) :
    ∀ param ∈ earlier.nextParams news.length, New base state.tables param.variableId := by
  intro param member
  obtain ⟨index, inside, rfl⟩ := List.mem_map.mp member
  rw [List.mem_range'] at inside
  obtain ⟨offset, small, rfl⟩ := inside
  have grown := kept.size_vars
  have first := since.size_vars
  simp only [Tables.addFunction, Tables.size_vars_addVariables] at grown
  exact ⟨by simp; omega, by simp; omega⟩

/-- The statements around the old body of a replaced entry point. -/
theorem Coherent.surrounds (coherent : Coherent plan base locals main state)
    (ground : plan.Ground base locals main) (member : main ∈ plan.dependents)
    (known : base.functions[main.index]? = some function)
    (found : state.updated.lookup main = some copy) (isLocal : plan.hasLocal = true) :
    ∃ internal entry entering leaving, locals.internal = some internal ∧
      state.tables.functions[copy.index]? = some entry ∧
      Surrounds plan base locals state.tables function internal entry entering leaving ∧
      ∀ body, plan.wrapMain state.tables state.locals copy body =
        .ok (entering ++ .block (plan.nest leaving body) :: leaving) := by
  obtain ⟨internal, inside⟩ := ground.internal (by simpa [Plan.hasLocal] using isLocal)
  have stateInside : state.locals.internal = some internal := coherent.internal.trans inside
  have enters : function.isMain = true :=
    (ground.onlyMain main member function known).mpr rfl
  have always (notTaken : plan.category.entry ≠ .structParam) :
      plan.category.alwaysLocal = true := by
    simp [Category.alwaysLocal, notTaken]
  -- All shapes but the two below take the external variable from the start.
  have outside (notTaken : plan.category.entry ≠ .structParam)
      (shape : plan.category.entry ≠ .indexParam) : ∃ external,
        locals.external = some external ∧ state.locals.external = some external := by
    obtain ⟨external, there⟩ := ground.external (always notTaken) shape
    exact ⟨external, there, (coherent.external (.inl shape)).trans there⟩
  cases coherent.made member known found with
  | stays _ shape =>
    obtain ⟨external, -, there⟩ := outside (by simp [shape]) (by simp [shape])
    have entersOk : Plan.prologue plan.toGathering state.tables main internal external = .ok [] := by
      simp [Plan.prologue, shape]
    exact ⟨internal, function, _, _, inside, coherent.adds.functions known, .kept shape,
      Plan.wrapMain_in (always (by simp [shape])) (Category.isOut_eq_false (by simp [shape]))
        stateInside there entersOk⟩
  | @copied earlier news entry since replaced kept external =>
    have copyOk : state.tables.functionAt ⟨earlier.functions.size⟩ = .ok entry := by
      simpa using getElem?_copy kept
    have sameTypes : state.tables.types = earlier.types := kept.sameTypes
    have newParams := new_of_nextParams since kept
    -- Without a layout of its own, the struct has the same fields inside.
    have fieldsInside (notReturned : plan.category.entry ≠ .returnsStruct)
        (notTaken : plan.category.entry ≠ .structParam) {name : Name} {fields : List Field}
        (struct : earlier.types[plan.external.index]? = some (.struct name fields)) :
        state.tables.types[plan.internal.index]? = some (.struct name fields) := by
      have same := ground.sameLayout (Category.layoutRules_eq_none notReturned notTaken)
      rw [sameTypes]
      simpa [Gathering.external, same] using struct
    cases replaced with
    | helper helps => simp [helps] at enters
    | returning _ shape void =>
      obtain ⟨external, baseThere, there⟩ := outside (by simp [shape]) (by simp [shape])
      have entersOk : Plan.prologue plan.toGathering state.tables ⟨earlier.functions.size⟩ internal
          external = .ok (if plan.outer.isSome then [.declare external none] else []) := by
        simp [Plan.prologue, shape]
      exact ⟨internal, _, _, _, inside, getElem?_copy kept, .returning shape void baseThere,
        Plan.wrapMain_out (always (by simp [shape])) (Category.isOut_eq_true shape) stateInside
          there entersOk⟩
    | @fieldParams _ shape name fields struct =>
      obtain ⟨external, -, there⟩ := outside (by simp [shape]) (by simp [shape])
      have structInside := fieldsInside (by simp [shape]) (by simp [shape]) struct
      have count : (earlier.nextParams fields.length).length = fields.length := by
        simp [Tables.nextParams]
      exact ⟨internal, _, _, _, inside, getElem?_copy kept,
        .fieldParams shape structInside count (by simpa using newParams),
        Plan.wrapMain_in (always (by simp [shape])) (Category.isOut_eq_false (by simp [shape]))
          stateInside there (Plan.prologue_fieldParams shape
            (Tables.fieldsOf_eq_ok_iff.mpr ⟨name, structInside⟩) copyOk count)⟩
    | @textureParams _ shape name fields news struct halves params =>
      obtain ⟨external, -, there⟩ := outside (by simp [shape]) (by simp [shape])
      have structInside := fieldsInside (by simp [shape]) (by simp [shape]) struct
      have sameSlots : TextureSlot.ofFields state.tables fields =
          TextureSlot.ofFields earlier fields := by
        simp only [TextureSlot.ofFields, Tables.shapeOf_congr sameTypes]
      have count : (earlier.nextParams news.length).length =
          2 * (TextureSlot.ofFields state.tables fields).length := by
        simp [Tables.nextParams, halves.length, sameSlots]
      exact ⟨internal, _, _, _, inside, getElem?_copy kept,
        .textureParams shape structInside newParams,
        Plan.wrapMain_in (always (by simp [shape])) (Category.isOut_eq_false (by simp [shape]))
          stateInside there (Plan.prologue_textureParams shape
            (Tables.fieldsOf_eq_ok_iff.mpr ⟨name, structInside⟩) copyOk count)⟩
    | indexParam _ shape =>
      obtain ⟨name, field, fields, struct⟩ := ground.indexField shape
      have structNow := coherent.adds.types struct
      have isNew := newParams ⟨⟨earlier.vars.size⟩, .input⟩ (by simp [Tables.nextParams])
      exact ⟨internal, _, _, _, inside, getElem?_copy kept, .indexParam shape structNow isNew,
        Plan.wrapMain_in (always (by simp [shape])) (Category.isOut_eq_false (by simp [shape]))
          stateInside (external enters shape) (Plan.prologue_indexParam shape
            (Tables.fieldsOf_eq_ok_iff.mpr ⟨name, structNow⟩))⟩
    | structParam _ shape =>
      have notAlways : plan.category.alwaysLocal = false := by simp [Category.alwaysLocal, shape]
      have notOut : plan.category.isOut = false := Category.isOut_eq_false (by simp [shape])
      obtain ⟨outer, bridged⟩ : ∃ outer, plan.outer = some outer := by
        simpa [Plan.hasLocal, notAlways, Option.isSome_iff_exists] using isLocal
      have isNew := newParams ⟨⟨earlier.vars.size⟩, .input⟩ (by simp [Tables.nextParams])
      refine ⟨internal, _, _, _, inside, getElem?_copy kept,
        .converted shape bridged isNew (getElem?_added kept), fun body => ?_⟩
      simp [Plan.wrapMain, notAlways, bridged, stateInside, Plan.wrapConverted, copyOk,
        Function.prepend, Plan.nest, notOut]

end Threading

end ShaderPipeline
