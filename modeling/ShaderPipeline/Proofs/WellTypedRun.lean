import ShaderPipeline.Proofs.Classification
import ShaderPipeline.Proofs.Signatures
import ShaderPipeline.Proofs.WellTyped

/-!
# Lowering a well-typed program

Outside of the textures, a category changes no type: a gathered variable becomes
a field of its own type, a replaced function returns what it returned, and no
pointer type comes in, so an address has the type that it had. So the bodies stay
well typed, and it is left to look at what a category puts in: the statements
around the body of the entry point, and the conversion function.
-/

namespace ShaderPipeline

/-! ## Pointers -/

namespace GatherRun

variable {shader result : Shader} {category : Category} {supplied : Option VariableId}
  {gathering : Gathering}

/-- Only textures need pointers for their struct. -/
theorem middle_pointers (run : GatherRun shader category supplied gathering result)
    (other : category ≠ .textures) {index : Nat} {pointee : TypeId}
    (there : run.middle.types[index]? = some (.pointer pointee)) :
    shader.program.tables.types[index]? = some (.pointer pointee) := by
  have made := run.internalOk
  cases supplied with
  | some id =>
    simp only [Gathering.internalStruct, Outcome.bind_eq_ok_iff, Outcome.pure_eq_ok,
      Except.ok.injEq, Prod.mk.injEq] at made
    obtain ⟨_, -, _, -, _, -, -, -, same, -⟩ := made
    rwa [← same] at there
  | none =>
    simp only [Gathering.internalStruct, Gathering.createInternal, Tables.createStruct,
      Outcome.bind_eq_ok_iff, Outcome.pure_eq_ok, Except.ok.injEq, Prod.mk.injEq] at made
    obtain ⟨_, ⟨⟨fields, grown⟩, fieldsOk, _, ⟨-, -, rfl⟩, rfl⟩, -, -, same, -⟩ := made
    obtain rfl := Tables.fieldsFor_tables other fieldsOk
    rw [← same] at there
    exact Tables.push_pointers (by simp) there

/-- Gathering brings in no pointers, unless it gathers textures. -/
theorem pointers (run : GatherRun shader category supplied gathering result)
    (sound : shader.program.tables.Sound) (closed : shader.program.tables.Closed)
    (other : category ≠ .textures) {index : Nat} {pointee : TypeId}
    (there : result.program.tables.types[index]? = some (.pointer pointee)) :
    shader.program.tables.types[index]? = some (.pointer pointee) := by
  obtain ⟨-, grows, middleSound⟩ := run.internal sound closed
  refine run.middle_pointers other ?_
  rcases run.bridged with ⟨-, same⟩ | ⟨rules, bridge, fields, placements, grown, -, -, fieldsOk,
    placesOk, -, adds⟩
  · rwa [same] at there
  · obtain ⟨name, struct⟩ := Tables.fieldsOf_eq_ok_iff.mp fieldsOk
    obtain ⟨toGrown, -⟩ := Layout.placeFields_grows middleSound run.middle.sized_true placesOk
    rw [adds.sameTypes] at there
    exact toGrown.pointers (Tables.push_pointers (by simp) there)

end GatherRun

/-- An address has the same type where there are the same pointers. -/
theorem Tables.addressType_eq {before after : Tables} (stay : before.TypesStay after)
    (pointers : ∀ {index : Nat} {pointee : TypeId}, after.types[index]? = some (.pointer pointee) →
      before.types[index]? = some (.pointer pointee)) (type : TypeId) :
    after.addressType type = before.addressType type := by
  unfold addressType
  cases found : before.find? (.pointer type) with
  | some pointer => rw [stay.find? found]
  | none =>
    cases foundAfter : after.find? (.pointer type) with
    | none => rfl
    | some pointer =>
      have present := find?_isSome (.pointer type) (pointers (find?_known foundAfter))
      simp [found] at present

/-! ## Bodies -/

namespace CategoryRun

variable {shader result : Shader} {category : Category} {supplied : Option VariableId}
  (run : CategoryRun shader category supplied result) (other : category ≠ .textures)

include other

/-- The substitution keeps all types. -/
theorem typeOf_subst {function : FunctionId} {expr : Expr} {type : TypeId}
    (uses : expr.Every (Expr.Uses (run.Mentions function) (run.Calls function) fun _ => True))
    (typed : shader.program.tables.HasType expr type) :
    result.program.tables.HasType (expr.subst (run.change function)) type := by
  have tracks : Tables.Tracks Eq shader.program.tables result.program.tables (run.change function)
      (run.Mentions function) (run.Calls function) fun _ => True := {
    stay := run.extended.types
    same := fun _ => rfl
    struct := fun same _ => same.symm
    isScalar := fun same known => ⟨_, same ▸ run.extended.types known, rfl⟩
    element := fun same known isElement =>
      ⟨_, _, same ▸ run.extended.types known, isElement, rfl⟩
    addressOf := fun _ _ same => same ▸ (Tables.addressType_eq run.extended.types
      (fun there => run.gather.pointers run.orderly.sound run.orderly.closed other
        (run.threaded_adds.sameTypes ▸ there)) _).symm
    symbols := fun mentions known => by
      obtain ⟨type, typed, same | ⟨-, field, rfl, -, represents⟩⟩ :=
        run.typeOf_symbol mentions.2 known
      · exact ⟨type, typed, same.symm⟩
      · rw [Tables.Represents, if_neg other] at represents
        exact ⟨_, typed, by rw [represents]⟩
    calls := fun calls known => ⟨_, run.typeOf_called calls.1 known, rfl⟩ }
  obtain ⟨result, resultTyped, rfl⟩ := tracks.typeOf uses typed
  exact resultTyped

/-- So it keeps all statements well typed. -/
theorem typed_subst {function : FunctionId} {body : Block} {returns : TypeId}
    (defined : (function, body) ∈ shader.program.definitions)
    (each : body.Each (Stmt.Typed shader.program.tables returns)) :
    Block.Each (Stmt.Typed result.program.tables returns)
      (Block.subst body (run.change function)) := by
  have uses := Block.each_of_every (run.body_sees defined)
  have both : body.Each fun stmt => stmt.Typed shader.program.tables returns ∧
      ∀ root ∈ stmt.ownExprs, root.Every
        (Expr.Uses (run.Mentions function) (run.Calls function) fun _ => True) :=
    fun stmt inside => ⟨each stmt inside, uses stmt inside⟩
  exact both.subst fun stmt typed => typed.1.subst
    (run.gather.evolves.trans run.threaded_adds.evolves) fun expr own type hasType =>
      run.typeOf_subst other (typed.2 expr own) hasType

end CategoryRun

/-! ## Around the body of the entry point -/

namespace StepRun

variable {shader result : Shader} {category : Category} {supplied : Option VariableId}
  (step : StepRun shader category supplied result)

/-- Pruning after threading leaves the types of expressions. -/
theorem hasType_eq : result.program.tables.HasType = step.threaded.program.tables.HasType := by
  funext expr type
  simp only [Tables.HasType, step.pruned.tables_eq, Tables.typeOf_retire]

/-- The instance of a function holds the struct. -/
theorem inst_hasType {function : FunctionId} (dependent : function ∈ step.run.dependents) :
    result.program.tables.HasType (.var (step.run.inst function)) step.gathering.internal := by
  obtain ⟨entry, known, isType, -⟩ := step.run.inst_known dependent
  rw [step.hasType_eq]
  exact Tables.typeOf_var_iff.mpr ⟨entry, known, isType⟩

/-- The fields of the instance have the types that the struct gives them. -/
theorem inst_field_hasType {function : FunctionId} (dependent : function ∈ step.run.dependents)
    {name : Name} {fields : List Field} {field : Field} {position : Nat}
    (struct : step.threaded.program.tables.types[step.gathering.internal.index]? =
      some (.struct name fields)) (there : fields[position]? = some field) :
    result.program.tables.HasType (.field (.var (step.run.inst function)) position) field.type :=
  Tables.typeOf_field_iff.mpr ⟨_, name, fields, field, step.inst_hasType dependent,
    step.pruning_evolves.types struct, there, rfl⟩

/-- The initial values of gathered variables have the types of their fields. -/
theorem startValues_typed {returns : TypeId} (dependent : step.run.main ∈ step.run.dependents)
    (initials : ∀ {index : Nat} {entry : Variable} {value : Constant},
      shader.program.tables.vars[index]? = some entry → entry.initializer = some value →
        value.type = entry.type) :
    Block.Each (Stmt.Typed result.program.tables returns)
      (step.run.plan.startValues (step.run.inst step.run.main)) := by
  refine Block.each_of_flat fun stmt member => ?_
  obtain ⟨⟨position, value⟩, own, rfl⟩ := List.mem_map.mp member
  obtain ⟨isMutable, id, entry, there, known, initial⟩ := step.run.initials_position own
  have unsupplied : supplied = none := by
    by_contra some
    have other := step.run.only (Option.isSome_iff_ne_none.mpr some)
    simp [isMutable] at other
  obtain ⟨name, fields, field, struct, isField, -, represents⟩ :=
    step.run.member_access there known unsupplied
  rw [Tables.Represents, if_neg (by simp [isMutable])] at represents
  refine ⟨rfl, field.type, step.inst_field_hasType dependent struct isField, ?_⟩
  rw [represents]
  exact congrArg Except.ok (initials known initial)

/-- An entry point that takes the fields of the struct takes each with its type. -/
theorem fieldParam_hasType (dependent : step.run.main ∈ step.run.dependents)
    (shape : category.entry = .fieldParams) {entry : Function} {params : List Param}
    (known : shader.program.tables.functions[step.run.main.index]? = some entry)
    (copiedKnown : step.threaded.program.tables.functions[
      (step.run.replace step.run.main).index]? = some (entry.append params))
    {name : Name} {fields : List Field}
    (struct : step.threaded.program.tables.types[step.gathering.internal.index]? =
      some (.struct name fields)) {position : Nat} {param : Param} {field : Field}
    (taken : params[position]? = some param) (there : fields[position]? = some field) :
    result.program.tables.HasType (.var param.variableId) field.type := by
  obtain ⟨final, front, back, finalKnown, signature⟩ := step.entry_signature dependent known
  obtain rfl := Option.some.inj
    ((step.pruning_evolves.functions copiedKnown).symm.trans finalKnown)
  have sameStruct : step.gathering.external = step.gathering.internal := by
    have same : step.gathering.outer = none := step.run.fits.2.sameLayout (by
      rw [step.run.gather.sameCategory]
      exact Category.layoutRules_eq_none (by simp [shape]) (by simp [shape]))
    simp [Gathering.external, same]
  have asks := signature.shape
  rw [shape, sameStruct] at asks
  cases asks with
  | @fieldParams _ others _ otherStruct each =>
    obtain ⟨-, rfl⟩ : _ ∧ others = fields := by
      simpa using otherStruct.symm.trans (step.pruning_evolves.types struct)
    obtain rfl : params = back := by simpa [Function.append] using signature.params
    obtain ⟨inFields, rfl⟩ := List.getElem?_eq_some_iff.mp there
    obtain ⟨inParams, rfl⟩ := List.getElem?_eq_some_iff.mp taken
    obtain ⟨paramEntry, paramKnown, isType, -⟩ := each.get inFields inParams
    exact Tables.typeOf_var_iff.mpr ⟨paramEntry, paramKnown, isType⟩

/-- What stands around the body of the entry point is well typed. -/
theorem surrounds_typed (dependent : step.run.main ∈ step.run.dependents)
    (other : category ≠ .textures)
    (initials : ∀ {index : Nat} {entry : Variable} {value : Constant},
      shader.program.tables.vars[index]? = some entry → entry.initializer = some value →
        value.type = entry.type)
    {entry copied : Function} {entering leaving : Block}
    (known : shader.program.tables.functions[step.run.main.index]? = some entry)
    (copiedKnown : step.threaded.program.tables.functions[
      (step.run.replace step.run.main).index]? = some copied)
    (surrounds : step.run.plan.Surrounds step.run.thread.base step.run.thread.locals
      step.threaded.program.tables entry (step.run.inst step.run.main) copied entering leaving) :
    Block.Each (Stmt.Typed result.program.tables copied.returnType) entering ∧
      Block.Each (Stmt.Typed result.program.tables copied.returnType) leaving := by
  have starts := @startValues_typed _ _ _ _ step copied.returnType dependent initials
  have declares {id : VariableId} {rest : Block}
      (typed : Block.Each (Stmt.Typed result.program.tables copied.returnType) rest) :
      Block.Each (Stmt.Typed result.program.tables copied.returnType) (.declare id none :: rest) :=
    Block.each_cons.mpr ⟨⟨by simp [Stmt.Typed], by simp [Stmt.inner]⟩, typed⟩
  have sameCategory : step.run.plan.category = category := step.run.gather.sameCategory
  cases surrounds with
  | kept => exact ⟨declares starts, Block.each_nil⟩
  | @fieldParams name fields params shape struct count =>
    refine ⟨declares (Block.each_append.mpr ⟨Block.each_of_flat fun stmt member => ?_, starts⟩),
      Block.each_nil⟩
    obtain ⟨position, inside, rfl⟩ := List.mem_mapIdx.mp member
    have there := List.getElem?_eq_getElem (count ▸ inside)
    exact ⟨rfl, _, step.inst_field_hasType dependent struct there,
      step.fieldParam_hasType dependent (sameCategory ▸ shape) known copiedKnown struct
        (List.getElem?_eq_getElem inside) there⟩
  | textureParams shape =>
    rw [sameCategory] at shape
    cases category <;> simp [Category.entry] at shape other
  | indexParam shape struct =>
    refine ⟨declares (Block.each_cons.mpr ⟨⟨?_, by simp [Stmt.inner]⟩, starts⟩), Block.each_nil⟩
    exact ⟨_, step.inst_field_hasType dependent struct rfl, rfl⟩
  | converted shape =>
    exact ⟨declares (Block.each_cons.mpr ⟨⟨trivial, by simp [Plan.convert, Stmt.inner]⟩,
      Block.each_nil⟩), Block.each_nil⟩
  | @returning external shape void outside =>
    obtain ⟨-, side, there⟩ := step.run.thread.ready.external external outside
    have hands : result.program.tables.HasType (.var external) step.gathering.external := by
      rw [step.hasType_eq]
      exact Tables.typeOf_var_iff.mpr
        ⟨_, step.run.thread.tables ▸ step.run.thread.coherent.adds.vars there, rfl⟩
    refine ⟨declares (Block.each_append.mpr ⟨?_, starts⟩), Block.each_append.mpr ⟨?_, ?_⟩⟩
    · split
      · exact declares Block.each_nil
      · exact Block.each_nil
    · refine Block.each_of_flat fun stmt member => ?_
      obtain ⟨outer, -, rfl⟩ := Option.map_eq_some_iff.mp (Option.mem_toList.mp member)
      exact ⟨rfl, trivial⟩
    · refine Block.each_of_flat fun stmt member => ?_
      obtain rfl := List.mem_singleton.mp member
      exact ⟨rfl, fun returned same => Option.some.inj same ▸ hands⟩

/-- The conversion function is well typed. -/
theorem bridge_typed {bridge : Bridge} (bridged : step.run.gather.bridge = some bridge)
    (returns : TypeId) :
    Block.Each (Stmt.Typed result.program.tables returns) bridge.body := by
  have closed := step.run.orderly.closed
  obtain ⟨-, grows, middleSound⟩ := step.run.gather.internal step.run.orderly.sound closed
  have isOuter : step.gathering.outer = some ⟨bridge.struct, bridge.function⟩ :=
    step.run.gather.outer.trans (by simp [bridged])
  obtain ⟨_, converts⟩ := step.run.converts isOuter
  rcases step.run.gather.bridged with ⟨none, -⟩ |
    ⟨rules, other, fields, placements, grown, -, isOther, fieldsOk, placesOk, bridges, adds⟩
  · simp [none] at bridged
  obtain rfl : other = bridge := by simpa [bridged] using isOther.symm
  obtain ⟨name, struct⟩ := Tables.fieldsOf_eq_ok_iff.mp fieldsOk
  obtain ⟨-, holds⟩ :=
    Layout.placeFields_grows middleSound step.run.gather.middle.sized_true placesOk
  have sinceMiddle := step.run.gather.extended.trans step.run.threaded_adds.toExtends
  have sinceGrown := ((Tables.addStruct_extends _ _).trans adds.toExtends).trans
    step.run.threaded_adds.toExtends
  have assigns := @Layout.convertBody_assigns
    ⟨step.threaded.program.tables, [], [], other.function⟩
    [⟨step.run.gather.middle.vars.size⟩, ⟨step.run.gather.middle.vars.size + 1⟩]
    rules.conversion rules ⟨step.run.gather.middle.vars.size⟩ _ _ _ name _ fields
    (Layout.order rules placements)
    (Validity.checkExpr_var_iff.mpr ⟨.inr (by simp), _, converts.internal, rfl⟩)
    (Tables.typeOf_var_iff.mpr ⟨_, converts.internal, rfl⟩) (sinceMiddle.types struct)
    (Validity.checkExpr_var_iff.mpr ⟨.inr (by simp), _, converts.external, rfl⟩)
    (Tables.typeOf_var_iff.mpr ⟨_, converts.external, rfl⟩)
    (step.run.threaded_adds.types bridges.external) fun placement member => by
      exact (holds placement (Layout.mem_order.mp member)).holds.extends sinceGrown
  rw [bridges.body, ← Layout.convertBody_congr step.run.threaded_adds.sameTypes]
  refine Block.each_of_flat fun stmt member => ?_
  obtain ⟨target, value, type, rfl, -, -, targetTyped, valueTyped⟩ := assigns stmt member
  rw [step.pruned.tables_eq, Stmt.typed_retire]
  exact ⟨rfl, type, targetTyped, valueTyped⟩

/-- A function that is replaced by one without a local instance returns what it returned. -/
theorem returns_kept {function : FunctionId} {entry : Function}
    (known : shader.program.tables.functions[function.index]? = some entry)
    (handed : function = step.run.main → step.run.main ∈ step.run.dependents →
      category.isOut = false) :
    ∃ final, result.program.tables.functions[(step.run.replace function).index]? = some final ∧
      final.returnType = entry.returnType := by
  by_cases dependent : function ∈ step.run.dependents
  · by_cases isMain : function = step.run.main
    · subst isMain
      obtain ⟨final, front, back, finalKnown, signature⟩ := step.entry_signature dependent known
      exact ⟨final, finalKnown, (signature.kept (handed rfl dependent)).1⟩
    · exact ⟨_, step.pruning_evolves.functions (step.run.helper_params dependent isMain known), rfl⟩
  · rw [step.run.replace_eq_self dependent]
    exact ⟨entry, step.evolves.functions known, rfl⟩

end StepRun

/-- A function that returns nothing has bare returns only. -/
theorem Program.Orderly.bare_returns {program : Program} (orderly : program.Orderly)
    {function : FunctionId} {body : Block} (defined : (function, body) ∈ program.definitions)
    {entry : Function} (known : program.tables.functions[function.index]? = some entry)
    (void : entry.returnType = .void) :
    body.Each Stmt.Bare := by
  obtain ⟨_, -, -, checked⟩ :=
    Validity.checkDefinition_eq_ok_iff.mp (orderly.check_definition defined)
  rintro stmt inside value rfl
  obtain ⟨visible, ⟨owner, ownerKnown, fits⟩, -⟩ := Validity.checkStmts_each checked _ inside
  obtain rfl := Option.some.inj (known.symm.trans ownerKnown)
  simp [void] at fits

/-- An entry point that is handed an instance hands no outputs over. -/
theorem Plan.isOut_of_handed {plan : Plan} (handed : plan.hasLocal = false) :
    plan.category.isOut = false := by
  have shape : plan.category.alwaysLocal = false := (Bool.or_eq_false_iff.mp handed).1
  revert shape
  cases plan.category <;> decide

namespace StepRun

variable {shader result : Shader} {category : Category} {supplied : Option VariableId}

/-- The statements of all functions stay well typed. -/
theorem result_stmts (step : StepRun shader category supplied result) (other : category ≠ .textures)
    (typed : shader.program.WellTyped) :
    ∀ definition ∈ result.program.definitions, ∃ function,
      result.program.tables.functions[definition.1.index]? = some function ∧
        Block.Each (Stmt.Typed result.program.tables function.returnType) definition.2 := by
  intro definition defined
  have sameCategory : step.run.plan.category = category := step.run.gather.sameCategory
  obtain ⟨⟨name, whole⟩, there, sameName, trims⟩ :=
    Outcome.forall₂_exists_left step.pruned.definitions defined
  suffices ∃ function, result.program.tables.functions[name.index]? = some function ∧
      Block.Each (Stmt.Typed result.program.tables function.returnType) whole by
    obtain ⟨function, known, each⟩ := this
    exact ⟨function, sameName ▸ known, trims.each (fun _ => Stmt.typed_of_inner) each⟩
  rcases step.run.result_cases there with ⟨bridge, bridged, same⟩ |
    ⟨function, body, old, replaced, frames⟩
  · obtain ⟨rfl, rfl⟩ := Prod.mk.inj same
    have isOuter : step.gathering.outer = some ⟨bridge.struct, bridge.function⟩ :=
      step.run.gather.outer.trans (by simp [bridged])
    obtain ⟨_, converts⟩ := step.run.converts isOuter
    exact ⟨_, step.pruning_evolves.functions converts.function, step.bridge_typed bridged _⟩
  · dsimp only at replaced frames
    subst replaced
    obtain ⟨entry, known, each⟩ := typed.stmts _ old
    have core : Block.Each (Stmt.Typed result.program.tables entry.returnType)
        (Block.subst body (step.run.change function)) := by
      rw [step.pruned.tables_eq]
      exact fun stmt inside => Stmt.typed_retire.mpr (step.run.typed_subst other old each stmt inside)
    cases frames with
    | bare handed =>
      obtain ⟨final, finalKnown, sameType⟩ := step.returns_kept known fun isMain dependent =>
        sameCategory ▸ Plan.isOut_of_handed (handed isMain dependent)
      exact ⟨final, finalKnown, sameType ▸ core⟩
    | @around _ copied entering leaving isMain dependent _ mainKnown copiedKnown surrounds =>
      subst isMain
      obtain rfl := Option.some.inj (known.symm.trans mainKnown)
      have copiedThere := step.pruning_evolves.functions copiedKnown
      obtain ⟨enters, leaves⟩ :=
        step.surrounds_typed dependent other typed.initials known copiedKnown surrounds
      refine ⟨copied, copiedThere, Block.each_append.mpr ⟨enters, Block.each_cons.mpr
        ⟨⟨trivial, ?_⟩, leaves⟩⟩⟩
      simp only [Stmt.inner, List.forall_mem_singleton, Plan.nest, sameCategory]
      split
      case isTrue isOut =>
        obtain ⟨final, front, back, finalKnown, signature⟩ := step.entry_signature dependent known
        have bare : Block.Each Stmt.Bare (Block.subst body (step.run.change step.run.main)) :=
          (step.run.orderly.bare_returns old known (signature.returned isOut).1).subst
            fun _ plain => plain.subst _
        exact Block.Each.typed_leaving (fun stmt inside => ⟨core stmt inside, bare stmt inside⟩)
          leaves
      case isFalse notOut =>
        obtain ⟨final, finalKnown, sameType⟩ :=
          step.returns_kept known fun _ _ => by simpa using notOut
        obtain rfl := Option.some.inj (copiedThere.symm.trans finalKnown)
        exact sameType ▸ core

/-- The initial values of all variables stay well typed. -/
theorem result_initials (step : StepRun shader category supplied result)
    (initials : ∀ {index : Nat} {entry : Variable} {value : Constant},
      shader.program.tables.vars[index]? = some entry → entry.initializer = some value →
        value.type = entry.type) {index : Nat} {entry : Variable} {value : Constant}
    (known : result.program.tables.vars[index]? = some entry)
    (initial : entry.initializer = some value) : value.type = entry.type := by
  rw [step.pruned.tables_eq, Tables.getElem?_retire] at known
  obtain ⟨source, sourceKnown, rfl⟩ := Option.map_eq_some_iff.mp known
  rw [Variable.retire_initializer] at initial
  rw [Variable.retire_type]
  rcases step.run.var_cases sourceKnown with old | ⟨plain, -⟩
  · exact initials old initial
  · simp [plain] at initial

/-- A category other than that of the textures keeps a program well typed. -/
theorem result_wellTyped (step : StepRun shader category supplied result)
    (other : category ≠ .textures) (typed : shader.program.WellTyped) :
    result.program.WellTyped where
  calls := by
    refine step.result_passes typed.calls (fun uses hasType => ?_) fun known =>
      Tables.typeOf_var_iff.mpr ⟨_, known, rfl⟩
    rw [step.hasType_eq]
    exact step.run.typeOf_subst other uses hasType
  stmts := step.result_stmts other typed
  initials := step.result_initials typed.initials

end StepRun

/-! ## Samplers -/

/-- No global variable is a sampler or an array of samplers. -/
def Program.NoSamplers (program : Program) : Prop :=
  ∀ id ∈ program.globalVariables, ∀ entry, program.tables.vars[id.index]? = some entry →
    program.tables.isSampler entry.type ≠ .ok true

namespace StepRun

variable {shader result : Shader} {category : Category} {supplied : Option VariableId}
  (step : StepRun shader category supplied result)

include step

/-- Without samplers there is nothing to gather for the textures. -/
theorem ne_textures (noSamplers : shader.program.NoSamplers) : category ≠ .textures := by
  rintro rfl
  obtain ⟨id, member⟩ := List.exists_mem_of_ne_nil _ step.run.gather.filled
  obtain ⟨declared, tested⟩ := step.run.mem_members.mp member
  simp only [Category.claims, Outcome.bind_eq_ok_iff, Tables.variableAt_eq_ok_iff] at tested
  obtain ⟨entry, known, sampler⟩ := tested
  exact noSamplers id declared entry known sampler

/-- No sampler comes in. -/
theorem result_noSamplers (noSamplers : shader.program.NoSamplers) :
    result.program.NoSamplers := by
  intro id declared entry known sampler
  have before := step.globalVariables declared
  have oldKnown := Array.getElem?_eq_getElem (step.run.orderly.declared_known before)
  obtain ⟨gone, there⟩ := step.evolves.vars oldKnown
  obtain rfl := Option.some.inj (there.symm.trans known)
  rw [step.pruned.tables_eq, Tables.isSampler_congr (Tables.retire_types _),
    Variable.retire_type] at sampler
  exact noSamplers id before _ oldKnown (step.run.orderly.closed.isSampler_ok step.run.extended
    sampler (step.run.orderly.closed.vars oldKnown))

end StepRun

/-- Lowering keeps a program well typed, if it has no samplers. -/
theorem Shader.lower_well_typed {shader lowered : Shader} {supplied : Option VariableId}
    {structs : CategoryStructs} (orderly : shader.program.Orderly)
    (noSamplers : shader.program.NoSamplers) (typed : shader.program.WellTyped)
    (lowers : shader.lower supplied = .ok (structs, lowered)) : lowered.program.WellTyped := by
  obtain ⟨-, -, kept⟩ := (Lowering.lowerCategories_inv lowers).keeps
    (fun shader => shader.program.NoSamplers ∧ shader.program.WellTyped)
    (fun step _ ⟨noSamplers, typed⟩ => ⟨step.result_noSamplers noSamplers,
      step.result_wellTyped (step.ne_textures noSamplers) typed⟩)
    orderly ⟨noSamplers, typed⟩
  exact kept

/-- A vertex shader with an array among its outputs. A helper scales what goes into it by a global
variable that has an initial value. -/
def Shader.scaling : Shader where
  program := {
    tables := {
      stage := .vertex
      types := (predefinedTypes ++ [Ty.array .float 2]).toArray
      vars := #[
        { name := ⟨"weights", .shaderInterface⟩, type := ⟨21⟩, decorations := [.output],
          scope := .global },
        { name := .temporary "scale", type := .float, initializer := some (.float 0),
          scope := .global },
        { name := .temporary "value", type := .float, scope := .parameter }]
      functions := #[.named "scaled" [⟨⟨2⟩, .input⟩] .float .notApplicable,
        .named "main" [] .void .notApplicable] }
    globals := [.var ⟨0⟩, .var ⟨1⟩,
      .definition ⟨0⟩ [.ret (some (.binary .mul (.var ⟨2⟩) (.var ⟨1⟩)))],
      .definition ⟨1⟩ [.ifThen (.const (.bool true)) [.ret none],
        .assign (.index (.var ⟨0⟩) (.const (.int 1))) (.call ⟨0⟩ [.const (.float 0)])]] }

/-- The shader is orderly. -/
theorem Shader.scaling_orderly : scaling.program.Orderly := by decide +kernel

/-- The shader is well typed. -/
theorem Shader.scaling_wellTyped : scaling.program.WellTyped where
  calls := by
    intro definition defined
    rcases List.mem_pair.mp defined with rfl | rfl
    · simp [Block.every_cons, Expr.Calling]
    · have passes : scaling.program.tables.Passes scaling.program.tables.HasType ⟨0⟩
          [.const (.float 0)] := ⟨_, rfl, .cons ⟨_, rfl, rfl⟩ .nil⟩
      simpa [Block.every_cons, Expr.Calling] using passes
  stmts := by
    intro definition defined
    rcases List.mem_pair.mp defined with rfl | rfl
    · exact ⟨_, rfl, by simp [Block.each_cons, Stmt.Typed, Stmt.inner]; rfl⟩
    · exact ⟨_, rfl, by simp [Block.each_cons, Stmt.Typed, Stmt.inner]; exact ⟨_, rfl, rfl⟩⟩
  initials := by
    have all : ∀ entry ∈ scaling.program.tables.vars, ∀ value ∈ entry.initializer,
      value.type = entry.type := by decide
    intro index entry value known initial
    exact all entry (Array.mem_of_getElem? known) value initial

/-- Lowered, `Shader.scaling` has a function that converts its outputs, and is still well typed. -/
theorem Shader.lower_well_typed_scaling : ∃ structs lowered,
    scaling.lower none = .ok (structs, lowered) ∧
    (∃ function ∈ lowered.program.tables.functions, function.name =
      Layout.convertName .toExternal (Category.structName .vertexOut .external)) ∧
    lowered.program.WellTyped := by
  obtain ⟨⟨structs, lowered⟩, lowers, converts⟩ := Outcome.exists_ok_of_any
    (by decide +kernel : ((scaling.lower none).toOption.any fun found =>
      found.2.program.tables.functions.any fun function => function.name ==
        Layout.convertName .toExternal (Category.structName .vertexOut .external)) = true)
  obtain ⟨index, inside, isConversion⟩ := Array.any_eq_true.mp converts
  refine ⟨structs, lowered, lowers, ⟨_, Array.getElem_mem inside, by simpa using isConversion⟩,
    lower_well_typed scaling_orderly (fun id declared entry known sampler => ?_) scaling_wellTyped
      lowers⟩
  have all : ∀ entry ∈ scaling.program.tables.vars,
      (scaling.program.tables.isSampler entry.type).toOption ≠ some true := by decide
  exact all entry (Array.mem_of_getElem? known) (by simp [sampler, Except.toOption])

end ShaderPipeline
