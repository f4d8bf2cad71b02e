import ShaderPipeline.Proofs.Alignment

/-!
# The signatures that a category makes

A helper that depends on a category takes the internal struct as a new first
parameter. What the entry point takes and returns depends on the entry shape of
the category: `EntryParams` says which parameters are put in front of the old
ones and after them, `EntrySignature` what the whole signature becomes.
-/

namespace ShaderPipeline

/-! ## New parameters -/

namespace Tables

variable {tables before middle after : Tables}

/-- The variable of the parameter has the given type. -/
def Takes (tables : Tables) (param : Param) (type : TypeId) : Prop :=
  ∃ entry, tables.vars[param.variableId.index]? = some entry ∧ entry.type = type ∧
    entry.scope = .parameter

/-- A parameter keeps its type while the tables evolve. -/
theorem Takes.evolves {param : Param} {type : TypeId} (takes : before.Takes param type)
    (evolves : before.Evolves after) : after.Takes param type := by
  obtain ⟨entry, known, isType, isParam⟩ := takes
  obtain ⟨gone, there⟩ := evolves.vars known
  exact ⟨_, there, by simp [isType], by simp [isParam]⟩

/-- Different parameters that are passed by value, whose variables came in on the way. -/
structure NewParams (before after : Tables) (params : List Param) : Prop where
  increasing : params.Pairwise fun first second =>
    first.variableId.index < second.variableId.index
  input : ∀ param ∈ params, param.direction = .input
  fresh : ∀ param ∈ params, before.vars.size ≤ param.variableId.index
  known : ∀ param ∈ params, param.variableId.index < after.vars.size

/-- No parameters are new ones. -/
theorem NewParams.nil (before after : Tables) : NewParams before after [] :=
  ⟨.nil, by simp, by simp, by simp⟩

/-- New parameters are new in a longer span as well. -/
theorem NewParams.mono {first last : Tables} {params : List Param}
    (news : NewParams before after params) (earlier : first.vars.size ≤ before.vars.size)
    (later : after.vars.size ≤ last.vars.size) : NewParams first last params where
  increasing := news.increasing
  input := news.input
  fresh param member := Nat.le_trans earlier (news.fresh param member)
  known param member := Nat.lt_of_lt_of_le (news.known param member) later

/-- No two new parameters share a variable. -/
theorem NewParams.nodup {params : List Param} (news : NewParams before after params) :
    (params.map Param.variableId).Nodup := by
  refine List.pairwise_map.mpr (news.increasing.imp fun earlier same => ?_)
  rw [same] at earlier
  exact Nat.lt_irrefl _ earlier

/-- Parameters that come in one after the other are new together. -/
theorem NewParams.append {params others : List Param} (first : NewParams before middle params)
    (second : NewParams middle after others) (toMiddle : before.Evolves middle)
    (toAfter : middle.Evolves after) : NewParams before after (params ++ others) where
  increasing := List.pairwise_append.mpr ⟨first.increasing, second.increasing,
    fun one early other late =>
      Nat.lt_of_lt_of_le (first.known one early) (second.fresh other late)⟩
  input := List.forall_mem_append.mpr ⟨first.input, second.input⟩
  fresh := List.forall_mem_append.mpr ⟨first.fresh,
    fun param member => Nat.le_trans toMiddle.size_vars (second.fresh param member)⟩
  known := List.forall_mem_append.mpr
    ⟨fun param member => Nat.lt_of_lt_of_le (first.known param member) toAfter.size_vars,
      second.known⟩

/-- The next free variables as parameters. -/
theorem nextParams_new {count : Nat} (enough : tables.vars.size + count ≤ after.vars.size) :
    NewParams tables after (tables.nextParams count) := by
  refine ⟨?_, ?_, ?_, ?_⟩
  · exact List.pairwise_map.mpr List.pairwise_lt_range'
  all_goals
    intro param member
    obtain ⟨index, inside, rfl⟩ := List.mem_map.mp member
    have bounds := List.mem_range'_1.mp inside
  · rfl
  · exact bounds.1
  · exact Nat.lt_of_lt_of_le bounds.2 enough

/-- The next free variables, once they are there. -/
theorem nextParams_added {news : List Variable} {function : Function}
    (kept : ((tables.addVariables news).addFunction function).2.Adds after) :
    List.Forall₂ (fun entry param => after.vars[param.variableId.index]? = some entry) news
        (tables.nextParams news.length) ∧
      NewParams tables after (tables.nextParams news.length) := by
  constructor
  · rw [List.forall₂_iff_get]
    refine ⟨by simp [nextParams], fun place inNews inParams => ?_⟩
    refine kept.vars ?_
    simp [addFunction, addVariables, nextParams, inNews]
  · refine nextParams_new ?_
    have larger := kept.size_vars
    simpa [addFunction] using larger

end Tables

/-! ## The parameters of the entry point -/

/-- Two parameters for every slot, a texture and a sampling state. -/
inductive TextureSlot.Params (tables : Tables) : List TextureSlot → List Param → Prop where
  | nil : Params tables [] []
  | cons {slot : TextureSlot} {slots : List TextureSlot} {kind : ImageKind} {type : TypeId}
      {texture sampler : Param} {params : List Param} (env : tables.IsEnv kind slot.env)
      (isTexture : tables.types[type.index]? = some (.texture kind))
      (first : tables.Takes texture type) (second : tables.Takes sampler .sampler)
      (rest : Params tables slots params) :
      Params tables (slot :: slots) (texture :: sampler :: params)

/-- The parameters that an entry shape puts in front of those of the entry point and after them,
for a category with the given external struct. -/
inductive EntryParams (tables : Tables) (external : TypeId) :
    EntryShape → (front back : List Param) → Prop where
  | returnsStruct : EntryParams tables external .returnsStruct [] []
  | localOnly : EntryParams tables external .localOnly [] []
  | indexParam {param : Param} (index : tables.Takes param .uint) :
      EntryParams tables external .indexParam [param] []
  | structParam {param : Param} (struct : tables.Takes param external) :
      EntryParams tables external .structParam [param] []
  | fieldParams {name : Name} {fields : List Field} {params : List Param}
      (struct : tables.types[external.index]? = some (.struct name fields))
      (each : List.Forall₂ (fun field param => tables.Takes param field.type) fields params) :
      EntryParams tables external .fieldParams [] params
  | textureParams {name : Name} {fields : List Field} {params : List Param}
      (struct : tables.types[external.index]? = some (.struct name fields))
      (shapes : ∀ field ∈ fields, ∃ extents base, tables.HasShape field.type extents base)
      (each : TextureSlot.Params tables (TextureSlot.ofFields tables fields) params) :
      EntryParams tables external .textureParams [] params

section Evolves

variable {before after : Tables}

/-- The parameters of slots keep their types while the tables evolve. -/
theorem TextureSlot.Params.evolves {slots : List TextureSlot} {params : List Param}
    (each : Params before slots params) (evolves : before.Evolves after) :
    Params after slots params := by
  induction each with
  | nil => exact .nil
  | cons env isTexture first second _ inductionHypothesis =>
    exact .cons (evolves.isEnv env) (evolves.types isTexture) (first.evolves evolves)
      (second.evolves evolves) inductionHypothesis

/-- The slots of fields whose arrays end stay the same. -/
theorem Tables.Evolves.ofFields (evolves : before.Evolves after) {fields : List Field}
    (shapes : ∀ field ∈ fields, ∃ extents base, before.HasShape field.type extents base) :
    TextureSlot.ofFields after fields = TextureSlot.ofFields before fields := by
  have same : ∀ field ∈ fields, after.shapeOf field.type = before.shapeOf field.type := by
    intro field member
    obtain ⟨extents, base, shape⟩ := shapes field member
    have later := evolves.hasShape shape
    rw [shape.shapeOf_eq (Nat.le_of_lt shape.length_lt),
      later.shapeOf_eq (Nat.le_of_lt later.length_lt)]
  unfold TextureSlot.ofFields
  refine congrArg List.flatten (List.ext_getElem (by simp) fun place inAfter inBefore => ?_)
  have inside : place < fields.length := by simpa using inBefore
  simp only [List.getElem_mapIdx, same _ (List.getElem_mem inside)]

/-- So do the parameters of the entry point. -/
theorem EntryParams.evolves {external : TypeId} {shape : EntryShape} {front back : List Param}
    (params : EntryParams before external shape front back) (evolves : before.Evolves after) :
    EntryParams after external shape front back := by
  cases params with
  | returnsStruct => exact .returnsStruct
  | localOnly => exact .localOnly
  | indexParam index => exact .indexParam (index.evolves evolves)
  | structParam struct => exact .structParam (struct.evolves evolves)
  | fieldParams struct each =>
    exact .fieldParams (evolves.types struct) (each.imp fun _ _ takes => takes.evolves evolves)
  | textureParams struct shapes each =>
    refine .textureParams (evolves.types struct) (fun field member => ?_) ?_
    · obtain ⟨extents, base, shape⟩ := shapes field member
      exact ⟨extents, base, evolves.hasShape shape⟩
    · rw [evolves.ofFields shapes]
      exact each.evolves evolves

end Evolves

/-- The halves of a texture environment point at a texture and at a sampling state. -/
theorem Tables.IsEnv.halves {tables : Tables} {kind : ImageKind} {id : TypeId} {name : Name}
    {first second : Field} {firstHandle secondHandle : TypeId} (isEnv : tables.IsEnv kind id)
    (env : tables.types[id.index]? = some (.struct name [first, second]))
    (firstPoints : tables.PointsAt first.type firstHandle)
    (secondPoints : tables.PointsAt second.type secondHandle) :
    (first.name.text = "texture" ∧ tables.types[first.type.index]? = some (.pointer firstHandle) ∧
      tables.types[firstHandle.index]? = some (.texture kind)) ∧
    second.name.text = "sampler" ∧ tables.types[second.type.index]? = some (.pointer .sampler) ∧
      secondHandle = .sampler := by
  obtain ⟨texture, texturePointer, samplerPointer, struct, texturePoints, isTexture,
    samplerPoints⟩ := isEnv
  obtain ⟨-, rfl, rfl⟩ : _ ∧ _ = _ ∧ _ = _ := by
    simpa [env, Tables.textureEnvFields] using struct
  obtain ⟨pointer, known, points⟩ := firstPoints
  obtain rfl : Ty.pointer texture = pointer := by simpa [texturePoints] using known
  obtain rfl : texture = _ := Option.some.inj points
  obtain ⟨pointer, known, points⟩ := secondPoints
  obtain rfl : Ty.pointer .sampler = pointer := by simpa [samplerPoints] using known
  obtain rfl : TypeId.sampler = _ := Option.some.inj points
  exact ⟨⟨rfl, texturePoints, isTexture⟩, rfl, samplerPoints, rfl⟩

/-- The variables for the halves of texture environments are a texture and a sampling state each. -/
theorem TextureSlot.Halves.params {before after : Tables} {slots : List TextureSlot}
    {news : List Variable} {params : List Param} (halves : Halves before slots news)
    (envs : ∀ slot ∈ slots, ∃ kind, before.IsEnv kind slot.env) (evolves : before.Evolves after)
    (added : List.Forall₂ (fun entry param => after.vars[param.variableId.index]? = some entry)
      news params) : Params after slots params := by
  induction halves generalizing params with
  | nil =>
    cases added
    exact .nil
  | cons env firstPoints secondPoints _ inductionHypothesis =>
    rw [List.forall_mem_cons] at envs
    obtain ⟨⟨kind, isEnv⟩, others⟩ := envs
    obtain _ | ⟨first, _ | ⟨second, rest⟩⟩ := added
    obtain ⟨⟨-, -, isTexture⟩, -, -, rfl⟩ := isEnv.halves env firstPoints secondPoints
    exact .cons (evolves.isEnv isEnv) (evolves.types isTexture) ⟨_, first, rfl, rfl⟩
      ⟨_, second, rfl, rfl⟩ (inductionHypothesis others rest)

/-- The parameters for the slots of fields that are made of texture environments. -/
theorem EntryParams.of_halves {before after : Tables} {external : TypeId} {name : Name}
    {fields : List Field} {news : List Variable} {params : List Param}
    (struct : before.types[external.index]? = some (.struct name fields))
    (ends : ∀ field ∈ fields, ∃ extents kind env, before.HasShape field.type extents env ∧
      before.IsEnv kind env)
    (halves : TextureSlot.Halves before (TextureSlot.ofFields before fields) news)
    (evolves : before.Evolves after)
    (added : List.Forall₂ (fun entry param => after.vars[param.variableId.index]? = some entry)
      news params) : EntryParams after external .textureParams [] params := by
  have shapes : ∀ field ∈ fields, ∃ extents base, before.HasShape field.type extents base := by
    intro field member
    obtain ⟨extents, kind, env, shape, -⟩ := ends field member
    exact ⟨extents, env, shape⟩
  refine .textureParams (evolves.types struct) (fun field member => ?_) ?_
  · obtain ⟨extents, base, shape⟩ := shapes field member
    exact ⟨extents, base, evolves.hasShape shape⟩
  rw [evolves.ofFields shapes]
  refine halves.params (fun slot member => ?_) evolves added
  simp only [TextureSlot.ofFields, List.mem_flatten, List.mem_mapIdx] at member
  obtain ⟨_, ⟨place, inside, rfl⟩, chosen⟩ := member
  obtain ⟨element, -, rfl⟩ := List.mem_map.mp chosen
  obtain ⟨extents, kind, env, shape, isEnv⟩ := ends _ (List.getElem_mem inside)
  rw [shape.shapeOf_eq (Nat.le_of_lt shape.length_lt)]
  exact ⟨kind, isEnv⟩

/-! ## One category -/

/-- What a category makes of the signature of the entry point. -/
structure EntrySignature (before after : Tables) (category : Category) (external : TypeId)
    (entry final : Function) (front back : List Param) : Prop where
  news : Tables.NewParams before after (front ++ back)
  shape : EntryParams after external category.entry front back
  name : final.name = entry.name
  params : final.params = front ++ entry.params ++ back
  kept : category.isOut = false →
    final.returnType = entry.returnType ∧ final.returnPrecision = entry.returnPrecision
  returned : category.isOut = true → entry.returnType = .void ∧ final.returnType = external ∧
    final.returnPrecision = .notApplicable

namespace EntrySignature

variable {first before after last : Tables} {category : Category} {external : TypeId}
  {entry final : Function} {front back : List Param}

/-- The signature of the entry point holds in a longer span as well. -/
theorem evolves
    (signature : EntrySignature before after category external entry final front back)
    (earlier : first.vars.size ≤ before.vars.size) (later : after.Evolves last) :
    EntrySignature first last category external entry final front back where
  news := signature.news.mono earlier later.size_vars
  shape := signature.shape.evolves later
  name := signature.name
  params := signature.params
  kept := signature.kept
  returned := signature.returned

/-- Parameters at one end or the other, where nothing is returned. -/
theorem of_params (news : Tables.NewParams before after (front ++ back))
    (shape : EntryParams after external category.entry front back)
    (params : final = { entry with params := front ++ entry.params ++ back })
    (plain : category.entry ≠ .returnsStruct) :
    EntrySignature before after category external entry final front back where
  news := news
  shape := shape
  name := by rw [params]
  params := by rw [params]
  kept _ := by simp [params]
  returned isOut := by simp [Category.isOut_eq_false plain] at isOut

end EntrySignature

namespace Threading

variable {plan : Plan} {base : Tables} {state : Threading} {id copy : FunctionId}
  {function : Function}

/-- The signature of a replaced entry point. -/
theorem Made.signature (made : Made plan base state id function copy)
    (adds : base.Adds state.tables) (known : base.functions[id.index]? = some function)
    (enters : function.isMain = true)
    (ends : plan.category.entry = .textureParams → ∀ {name : Name} {fields : List Field},
      base.types[plan.external.index]? = some (.struct name fields) →
        ∀ field ∈ fields, ∃ extents kind env, base.HasShape field.type extents env ∧
          base.IsEnv kind env) :
    ∃ final front back, state.tables.functions[copy.index]? = some final ∧
      EntrySignature base state.tables plan.category plan.external function final front back := by
  cases made with
  | stays _ shape =>
    refine ⟨function, [], [], adds.functions known,
      .of_params (.nil _ _) ?_ (by simp) (by simp [shape])⟩
    rw [shape]
    exact .localOnly
  | @copied earlier news entry since replaced kept external =>
    obtain ⟨added, isNew⟩ := Tables.nextParams_added kept
    have fresh := isNew.mono since.size_vars (Nat.le_refl _)
    have toState : earlier.Evolves state.tables := ((Tables.addVariables_adds news).trans
      ((Tables.addFunction_adds entry).trans kept)).evolves
    have one {entry : Variable} (only : news = [entry]) (isParam : entry.scope = .parameter) :
        Tables.NewParams base state.tables [⟨⟨earlier.vars.size⟩, .input⟩] ∧
          state.tables.Takes ⟨⟨earlier.vars.size⟩, .input⟩ entry.type := by
      subst only
      have single : earlier.nextParams [entry].length = [⟨⟨earlier.vars.size⟩, .input⟩] := by
        simp [Tables.nextParams]
      rw [single] at fresh added
      cases added with
      | cons there => exact ⟨fresh, entry, there, rfl, isParam⟩
    cases replaced with
    | helper helps => simp [helps] at enters
    | returning _ shape void =>
      refine ⟨_, [], [], getElem?_copy kept, .nil _ _, ?_, rfl, by simp [Function.returning], ?_,
        fun _ => ⟨void, rfl, rfl⟩⟩
      · rw [shape]
        exact .returnsStruct
      · simp [Category.isOut_eq_true shape]
    | @fieldParams _ shape name fields struct =>
      rw [List.length_map] at fresh added
      refine ⟨_, [], earlier.nextParams fields.length, getElem?_copy kept,
        .of_params fresh ?_ (by simp [Function.append]) (by simp [shape])⟩
      rw [shape]
      rw [List.forall₂_map_left_iff] at added
      exact .fieldParams (toState.types struct)
        (added.imp fun field param there => ⟨_, there, rfl, rfl⟩)
    | @textureParams _ shape name fields _ struct halves =>
      refine ⟨_, [], earlier.nextParams news.length, getElem?_copy kept,
        .of_params fresh ?_ (by simp [Function.append]) (by simp [shape])⟩
      rw [shape]
      refine .of_halves struct (fun field member => ?_) halves toState added
      obtain ⟨extents, kind, env, hasShape, isEnv⟩ :=
        ends shape (since.sameTypes ▸ struct) field member
      exact ⟨extents, kind, env, hasShape.extends since.toExtends, since.toExtends.isEnv isEnv⟩
    | indexParam _ shape =>
      obtain ⟨isFresh, takes⟩ := one rfl rfl
      refine ⟨_, [_], [], getElem?_copy kept,
        .of_params isFresh ?_ (by simp [Function.prepend]) (by simp [shape])⟩
      rw [shape]
      exact .indexParam takes
    | structParam _ shape =>
      obtain ⟨isFresh, takes⟩ := one rfl rfl
      refine ⟨_, [_], [], getElem?_copy kept,
        .of_params isFresh ?_ (by simp [Function.prepend]) (by simp [shape])⟩
      rw [shape]
      exact .structParam takes

end Threading

namespace StepRun

variable {shader result : Shader} {category : Category} {supplied : Option VariableId}
  (step : StepRun shader category supplied result)

/-- After threading, the tables evolve to those of the result. -/
theorem threaded_evolves : step.run.thread.final.tables.Evolves result.program.tables := by
  rw [step.pruned.tables_eq, ← step.run.thread.tables]
  exact Tables.retire_evolves _

/-- Before threading there are at least the variables of the shader. -/
theorem base_size : shader.program.tables.vars.size ≤ step.run.thread.base.vars.size :=
  Nat.le_trans step.run.gathered_extends.size_vars step.run.thread.ready.adds.size_vars

/-- A helper that depends on the category takes the internal struct as its first parameter. -/
theorem helper_signature {function : FunctionId} (dependent : function ∈ step.run.dependents)
    (helps : function ≠ step.run.main) {entry : Function}
    (known : shader.program.tables.functions[function.index]? = some entry) :
    ∃ param, Tables.NewParams shader.program.tables result.program.tables [param] ∧
      result.program.tables.Takes param step.gathering.internal ∧
      result.program.tables.functions[(step.run.replace function).index]? =
        some (entry.prepend param) := by
  obtain ⟨other, otherKnown, -, isMain, -, made⟩ := step.run.thread.made dependent
  obtain rfl : other = entry := by
    simpa [step.run.gathered_extends.functions known] using otherKnown.symm
  have notMain : other.isMain = false := by simpa using mt isMain.mp helps
  obtain ⟨holder, fresh, -, there, copied⟩ := made.helper notMain
  have takes : step.run.thread.final.tables.Takes ⟨holder, .input⟩ step.gathering.internal :=
    ⟨_, there, rfl, rfl⟩
  refine ⟨⟨holder, .input⟩, ⟨List.pairwise_singleton _ _, ?_, ?_, ?_⟩,
    takes.evolves step.threaded_evolves, step.threaded_evolves.functions copied⟩
  · simp
  · simpa using Nat.le_trans step.base_size fresh
  · simpa using Nat.lt_of_lt_of_le (Array.getElem?_eq_some_iff.mp there).1
      step.threaded_evolves.size_vars

/-- The fields that stand for samplers are made of texture environments. -/
theorem textures_end (isTextures : category.entry = .textureParams) {name : Name}
    {fields : List Field} (struct : step.run.gathered.program.tables.types[
      step.gathering.external.index]? = some (.struct name fields)) :
    ∀ field ∈ fields, ∃ extents kind env,
      step.run.gathered.program.tables.HasShape field.type extents env ∧
        step.run.gathered.program.tables.IsEnv kind env := by
  obtain rfl : category = .textures := by cases category <;> simp [Category.entry] at isTextures ⊢
  obtain rfl : supplied = none := by
    cases supplied with
    | none => rfl
    | some id => exact absurd (step.run.only rfl) (by simp)
  obtain ⟨internal, -, -⟩ := step.run.gather.internal step.run.orderly.sound step.run.orderly.closed
  obtain ⟨created, known, isFields⟩ := internal.isFields
  have sameLayout : step.run.gathering.outer = none :=
    step.run.fits.2.sameLayout (by rw [step.run.gather.sameCategory]; rfl)
  have same : step.gathering.external = step.run.gathering.internal := by
    simp [StepRun.gathering, Gathering.external, sameLayout]
  rw [same, step.run.gather.extended.types known] at struct
  obtain ⟨-, rfl⟩ : _ ∧ created = fields := by simpa using struct
  intro field member
  obtain ⟨id, -, entry, -, isField⟩ := Outcome.forall₂_exists_left isFields member
  simp only [Tables.FieldFor, if_true] at isField
  obtain ⟨env, rfl, extents, kind, base, -, isEnv, shape⟩ := isField
  exact ⟨extents, kind, base, shape.extends step.run.gather.extended,
    step.run.gather.extended.isEnv isEnv⟩

/-- The entry point that depends on the category has the signature that the entry shape asks for. -/
theorem entry_signature (dependent : step.run.main ∈ step.run.dependents) {entry : Function}
    (known : shader.program.tables.functions[step.run.main.index]? = some entry) :
    ∃ final front back,
      result.program.tables.functions[(step.run.replace step.run.main).index]? = some final ∧
        EntrySignature shader.program.tables result.program.tables category
          step.gathering.external entry final front back := by
  obtain ⟨other, otherKnown, baseKnown, isMain, -, made⟩ := step.run.thread.made dependent
  obtain rfl : other = entry := by
    simpa [step.run.gathered_extends.functions known] using otherKnown.symm
  have sameCategory : step.run.gathering.category = category := step.run.gather.sameCategory
  obtain ⟨final, front, back, finalKnown, signature⟩ := made.signature step.run.thread.coherent.adds
    baseKnown (isMain.mpr rfl) fun shape {name fields} struct field member => by
      have adds := step.run.thread.ready.adds
      obtain ⟨extents, kind, env, hasShape, isEnv⟩ := step.textures_end (sameCategory ▸ shape)
        (adds.sameTypes ▸ struct) field member
      exact ⟨extents, kind, env, hasShape.extends adds.toExtends, adds.toExtends.isEnv isEnv⟩
  refine ⟨final, front, back, step.threaded_evolves.functions finalKnown, ?_⟩
  have here := signature.evolves step.base_size step.threaded_evolves
  rwa [show _ = category from sameCategory] at here

end StepRun

end ShaderPipeline
