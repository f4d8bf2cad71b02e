import ShaderPipeline.Proofs.Validity.Bodies
import ShaderPipeline.Proofs.Validity.Conversion
import ShaderPipeline.Proofs.Validity.Returning

/-!
# Validity of the new entry point

What stands around the old body of the entry point is valid: it fills the local
instance from parameters that are there, and it hands over a struct of the type
that is returned. So the new entry point is valid with the old body inside.
-/

namespace ShaderPipeline

namespace Validity

variable {context : Context}

/-- A visible variable in use may be mentioned. -/
theorem checkExpr_of_visible {visible : List VariableId} {id : VariableId} {scope : Scope}
    {entry : Variable} (declarable : Declarable context.tables scope id entry)
    (isVisible : id ∈ visible) : checkExpr context visible (.var id) = .ok () :=
  checkExpr_var_iff.mpr ⟨.inr isVisible, entry, declarable.known, declarable.alive⟩

/-- What can be declared still can while the tables grow. -/
theorem Declarable.extends {before after : Tables} {scope : Scope} {id : VariableId}
    {entry : Variable} (declarable : Declarable before scope id entry)
    (extended : before.Extends after) : Declarable after scope id entry :=
  { declarable with known := extended.vars declarable.known }

/-- What stands around a body is valid, and lets the body see an instance besides the
parameters. -/
structure Encloses (context : Context) (params : List VariableId) (holder : VariableId)
    (entering leaving : Block) : Prop where
  enters : checkStmts context entering params = .ok ()
  opened : holder :: params ⊆ opensAll entering params
  leaves : ∀ visible, opensAll entering params ⊆ visible →
    checkStmts context leaving visible = .ok ()

/-- A declared instance that is filled without declaring anything else. -/
theorem encloses_of_fills {params : List VariableId} {holder : VariableId} {entry : Variable}
    {fills : Block} (declarable : Declarable context.tables .local holder entry)
    (plain : ∀ stmt ∈ fills, Prune.declared? stmt = none ∧ Keeps context (holder :: params) stmt) :
    Encloses context params holder (.declare holder none :: fills) [] where
  enters := checkStmts_cons_iff.mpr ⟨⟨by simp, entry, declarable⟩, (checkStmts_of_forall plain).1⟩
  opened := by
    rw [opensAll_cons, opens_declare, (checkStmts_of_forall plain).2]
    exact List.Subset.refl _
  leaves _ _ := checkStmts_nil

end Validity

namespace CategoryRun

open Validity (contextOf Declarable Callable Encloses Keeps)

variable {shader result : Shader} {category : Category} {supplied : Option VariableId}
  (run : CategoryRun shader category supplied result)

/-- The parameters that threading creates may be declared. -/
theorem new_param {id : VariableId} (new : Plan.New run.thread.base result.program.tables id) :
    ∃ entry, Declarable result.program.tables .parameter id entry := by
  obtain ⟨entry, known⟩ : ∃ entry, result.program.tables.vars[id.index]? = some entry :=
    ⟨_, Array.getElem?_eq_getElem new.2⟩
  have isParam := run.thread.coherent.params new.1 (run.thread.tables ▸ known)
  exact ⟨entry, known, isParam.alive, isParam.scope, .inr rfl⟩

/-- The struct that functions work with is known in the result. -/
theorem internal_known : ∃ name fields,
    result.program.tables.types[run.gathering.internal.index]? = some (.struct name fields) := by
  obtain ⟨name, fields, known⟩ := run.thread.ground.suits.internal
  exact ⟨name, fields, run.thread.tables ▸ run.thread.coherent.adds.types known⟩

/-- So is the struct that crosses the boundary. -/
theorem external_known : ∃ name fields,
    result.program.tables.types[run.gathering.external.index]? = some (.struct name fields) := by
  obtain ⟨name, fields, known⟩ := run.thread.ground.suits.external
  exact ⟨name, fields, run.thread.tables ▸ run.thread.coherent.adds.types known⟩

/-- The struct that is handed over is not void. -/
theorem external_ne_void : run.gathering.external ≠ .void := by
  intro same
  obtain ⟨name, fields, known⟩ := run.external_known
  have void := run.extended.types (@Tables.Sound.predefined _ run.orderly.sound 0 _ rfl)
  rw [same] at known
  exact absurd (void.symm.trans known) (by simp)

/-- The initial values that move into the entry point belong to gathered variables. -/
theorem initials_position {position : Nat} {value : Constant}
    (member : (position, value) ∈ run.initials) :
    category = .mutableGlobals ∧ ∃ id entry, run.gathering.members[position]? = some id ∧
      shader.program.tables.vars[id.index]? = some entry ∧ entry.initializer = some value := by
  have made : Plan.initialValues run.gathering run.thread.base = .ok run.initials :=
    run.thread.initials
  unfold Plan.initialValues at made
  split at made
  case isTrue isMutable =>
    simp only [Outcome.bind_eq_ok_iff, Outcome.mapM_eq_ok_iff, Outcome.pure_eq_ok,
      Except.ok.injEq] at made
    obtain ⟨entries, found, same⟩ := made
    rw [← same] at member
    obtain ⟨⟨place, entry⟩, zipped, isValue⟩ := List.mem_filterMap.mp member
    obtain ⟨_, initial, same⟩ := Option.map_eq_some_iff.mp isValue
    obtain ⟨rfl, rfl⟩ := Prod.mk.inj same
    rw [run.gather.sameCategory] at isMutable
    obtain ⟨index, inside, isPair⟩ := List.mem_iff_getElem.mp zipped
    obtain ⟨rfl, rfl⟩ := Prod.mk.inj (List.getElem_zip.symm.trans isPair)
    rw [List.length_zip, List.length_range, Nat.min_self] at inside
    have inMembers : index < run.gathering.members.length := by rwa [found.length_eq]
    have isEntry := Tables.variableAt_eq_ok_iff.mp
      ((List.forall₂_iff_get.mp found).2 index inMembers inside)
    obtain ⟨known, declarable⟩ := run.member_declarable (List.get_mem _ ⟨index, inMembers⟩)
    have extended := run.gathered_extends.trans run.thread.ready.adds.toExtends
    obtain rfl : known = entries.get ⟨index, inside⟩ :=
      Option.some.inj ((extended.vars declarable.known).symm.trans isEntry)
    exact ⟨isMutable, _, _, by simp [inMembers], declarable.known, initial⟩
  case isFalse =>
    obtain none : [] = run.initials := by simpa using made
    simp [← none] at member

variable {owner : FunctionId} {visible : List VariableId}

/-- The instance of the entry point and its fields may be mentioned where it is visible. -/
theorem checkExpr_inst (dependent : run.main ∈ run.dependents)
    (isVisible : run.inst run.main ∈ visible) :
    Validity.checkExpr (contextOf result.program owner) visible (.var (run.inst run.main)) =
        .ok () ∧
      result.program.tables.typeOf (.var (run.inst run.main)) = .ok run.gathering.internal := by
  obtain ⟨entry, known, type, alive⟩ := run.inst_known dependent
  exact ⟨Validity.checkExpr_var_iff.mpr ⟨.inr isVisible, entry, known, alive⟩,
    Tables.typeOf_var_iff.mpr ⟨entry, known, type⟩⟩

/-- Where the instance of the entry point is visible, its fields are valid. -/
theorem checkExpr_inst_field (dependent : run.main ∈ run.dependents)
    (isVisible : run.inst run.main ∈ visible) {name : Name} {fields : List Field} {position : Nat}
    (struct : result.program.tables.types[run.gathering.internal.index]? =
      some (.struct name fields)) (inside : position < fields.length) :
    Validity.checkExpr (contextOf result.program owner) visible
      (.field (.var (run.inst run.main)) position) = .ok () := by
  obtain ⟨instOk, typed⟩ := run.checkExpr_inst dependent isVisible
  exact Validity.checkExpr_field_iff.mpr ⟨instOk, _, name, fields, typed, struct, inside⟩

/-- Setting the initial values is valid. -/
theorem startValues_keep (dependent : run.main ∈ run.dependents)
    (isVisible : run.inst run.main ∈ visible) :
    ∀ stmt ∈ run.plan.startValues (run.inst run.main), Prune.declared? stmt = none ∧
      Keeps (contextOf result.program owner) visible stmt := by
  intro stmt member
  obtain ⟨⟨position, value⟩, own, rfl⟩ := List.mem_map.mp member
  obtain ⟨isMutable, id, entry, there, -⟩ := run.initials_position own
  have inside := (List.getElem?_eq_some_iff.mp there).1
  have unsupplied : supplied = none := by
    by_contra some
    have other := run.only (Option.isSome_iff_ne_none.mpr some)
    simp [isMutable] at other
  obtain ⟨fields, struct, isFields⟩ := run.member_field unsupplied
  exact ⟨rfl, run.checkExpr_inst_field dependent isVisible struct (isFields.length_eq ▸ inside),
    Validity.checkExpr_const value⟩

/-- The conversion function takes two arguments. -/
theorem convert_callable {outer : OuterLayout} (isOuter : run.gathering.outer = some outer) :
    Callable (contextOf result.program owner) outer.convert 2 := by
  rw [run.gather.outer] at isOuter
  obtain ⟨bridge, bridged, rfl⟩ := Option.map_eq_some_iff.mp isOuter
  rcases run.gather.bridged with ⟨none, -⟩ | ⟨rules, other, _, _, _, -, isOther, -, -, bridges, -⟩
  · simp [none] at bridged
  · obtain rfl : other = bridge := by simpa [bridged] using isOther.symm
    have known : run.gathered.program.tables.functions[other.function.index]? =
        some (Layout.convertFunction rules.conversion (category.structName .external)
          run.gather.middle.vars.size) := by
      rw [bridges.functions, bridges.function]
      exact Array.getElem?_push_size
    refine ⟨run.bridge_declared bridged, _, run.threaded_adds.functions known, ?_⟩
    cases conversion : rules.conversion <;> simp [Layout.convertFunction, Layout.convertParams]

/-- Converting between two visible variables is valid. -/
theorem convert_keeps {outer : OuterLayout} (isOuter : run.gathering.outer = some outer)
    {source target : VariableId}
    (sourceOk : Validity.checkExpr (contextOf result.program owner) visible (.var source) = .ok ())
    (targetOk : Validity.checkExpr (contextOf result.program owner) visible (.var target) = .ok ()) :
    Keeps (contextOf result.program owner) visible (Plan.convert outer source target) :=
  Validity.checkExpr_call_iff.mpr ⟨by simp [sourceOk, targetOk], run.convert_callable isOuter⟩

/-- The local instances of the entry point may be declared. -/
theorem local_declarable (dependent : run.main ∈ run.dependents)
    (isLocal : run.plan.hasLocal = true) :
    ∃ entry, Declarable result.program.tables .local (run.inst run.main) entry := by
  have inside := (run.thread.ready.internal _ (run.thread.inst_local dependent isLocal)).2
  exact ⟨_, run.thread.tables ▸ run.thread.coherent.adds.vars inside, rfl, rfl, .inl rfl⟩

/-- The external instance can be declared as a local variable. -/
theorem external_declarable {external : VariableId}
    (isExternal : run.thread.locals.external = some external) :
    ∃ entry, Declarable result.program.tables .local external entry := by
  obtain ⟨-, side, outside⟩ := run.thread.ready.external external isExternal
  exact ⟨_, run.thread.tables ▸ run.thread.coherent.adds.vars outside, rfl, rfl, .inl rfl⟩

variable {entry copied : Function} {entering leaving : Block}

/-- The new signature of the entry point keeps the old parameters and adds new ones. -/
theorem surrounds_params
    (surrounds : run.plan.Surrounds run.thread.base run.thread.locals result.program.tables entry
      (run.inst run.main) copied entering leaving) :
    entry.params ⊆ copied.params ∧ ∀ param ∈ copied.params, param ∈ entry.params ∨
      Plan.New run.thread.base result.program.tables param.variableId := by
  cases surrounds with
  | kept | returning => exact ⟨List.Subset.refl _, fun param member => .inl member⟩
  | fieldParams _ _ _ news | textureParams _ _ news =>
    refine ⟨List.subset_append_left _ _, fun param member => ?_⟩
    exact (List.mem_append.mp member).imp_right (news param)
  | indexParam _ _ new | converted _ _ new =>
    refine ⟨List.subset_cons_self _ _, fun param member => ?_⟩
    rcases List.mem_cons.mp member with rfl | old
    · exact .inr new
    · exact .inl old

/-- Pointing texture environments at visible parameters is valid. -/
theorem connect_keeps {slots : List TextureSlot} {params : List Param}
    (reached : ∀ slot ∈ slots, ∃ name first second,
      Validity.checkExpr (contextOf result.program owner) visible
        (slot.access (run.inst run.main)) = .ok () ∧
      result.program.tables.typeOf (slot.access (run.inst run.main)) = .ok slot.env ∧
      result.program.tables.types[slot.env.index]? = some (.struct name [first, second]))
    (paramsOk : ∀ param ∈ params, Validity.checkExpr (contextOf result.program owner) visible
      (.var param.variableId) = .ok ()) :
    ∀ stmt ∈ Plan.connect (run.inst run.main) slots params, Prune.declared? stmt = none ∧
      Keeps (contextOf result.program owner) visible stmt := by
  fun_induction Plan.connect (run.inst run.main) slots params with
  | case1 slot slots texture sampler params inductionHypothesis =>
    obtain ⟨⟨name, first, second, accessOk, typed, struct⟩, restReached⟩ :=
      List.forall_mem_cons.mp reached
    obtain ⟨textureOk, restOk⟩ := List.forall_mem_cons.mp paramsOk
    obtain ⟨samplerOk, restOk⟩ := List.forall_mem_cons.mp restOk
    have half {position : Nat} (inside : position < 2) :
        Validity.checkExpr (contextOf result.program owner) visible
          (.field (slot.access (run.inst run.main)) position) = .ok () :=
      Validity.checkExpr_field_iff.mpr ⟨accessOk, _, name, _, typed, struct, inside⟩
    refine List.forall_mem_cons.mpr ⟨⟨rfl, half (by decide),
      Validity.checkExpr_addressOf.trans textureOk⟩, ?_⟩
    exact List.forall_mem_cons.mpr ⟨⟨rfl, half (by decide),
      Validity.checkExpr_addressOf.trans samplerOk⟩, inductionHypothesis restReached restOk⟩
  | case2 => simp

/-- The slots of the textures struct can be reached from a visible instance. -/
theorem slot_reached (acyclic : result.program.tables.Acyclic)
    (dependent : run.main ∈ run.dependents) (isVisible : run.inst run.main ∈ visible)
    (shape : run.plan.category.entry = .textureParams) {name : Name} {fields : List Field}
    (struct : result.program.tables.types[run.gathering.internal.index]? =
      some (.struct name fields)) :
    ∀ slot ∈ TextureSlot.ofFields result.program.tables fields, ∃ name first second,
      Validity.checkExpr (contextOf result.program owner) visible
        (slot.access (run.inst run.main)) = .ok () ∧
      result.program.tables.typeOf (slot.access (run.inst run.main)) = .ok slot.env ∧
      result.program.tables.types[slot.env.index]? = some (.struct name [first, second]) := by
  intro slot member
  have noOuter : run.plan.outer = none := run.thread.ground.sameLayout
    (Category.layoutRules_eq_none (shape ▸ by simp) (shape ▸ by simp))
  have sameStruct : run.plan.external = run.gathering.internal := by
    rw [Gathering.external, noOuter]
    rfl
  have suits : run.plan.Suits result.program.tables :=
    run.thread.tables ▸ run.thread.ground.suits.adds run.thread.coherent.adds
  obtain ⟨envName, first, second, envKnown, -⟩ :=
    suits.slots shape name fields (sameStruct ▸ struct) slot member
  simp only [TextureSlot.ofFields, List.mem_flatten, List.mem_mapIdx] at member
  obtain ⟨slots, ⟨position, inside, rfl⟩, chosen⟩ := member
  obtain ⟨element, own, rfl⟩ := List.mem_map.mp chosen
  have fieldInside : fields[position].type.index < result.program.tables.types.size := by
    have earlier := acyclic struct fields[position].type
      (List.mem_map_of_mem (List.getElem_mem inside))
    exact Nat.lt_trans earlier (Tables.index_lt_of_getElem? struct)
  obtain ⟨-, instTyped⟩ := @run.checkExpr_inst _ _ _ _ owner visible dependent isVisible
  obtain ⟨accessOk, typed⟩ := Layout.checkExpr_atPosition (acyclic.shapeOf_eq fieldInside)
    (run.checkExpr_inst_field dependent isVisible struct inside)
    (Tables.typeOf_field_iff.mpr ⟨_, name, fields, _, instTyped, struct,
      List.getElem?_eq_getElem inside, rfl⟩) (Layout.length_of_mem_positions own)
  exact ⟨envName, first, second, accessOk, typed, envKnown⟩

/-- Handing the outputs over is valid where the instances are visible. -/
theorem epilogue_checks (dependent : run.main ∈ run.dependents)
    (known : result.program.tables.functions[(run.replace run.main).index]? = some copied)
    (returns : copied.returnType = run.gathering.external) {external : VariableId}
    {externalEntry : Variable}
    (declarable : Declarable result.program.tables .local external externalEntry)
    (holderVisible : run.inst run.main ∈ visible) (externalVisible : external ∈ visible) :
    Validity.checkStmts (contextOf result.program (run.replace run.main))
      (Plan.epilogue run.gathering (run.inst run.main) external) visible = .ok () := by
  have externalOk := @Validity.checkExpr_of_visible
    (contextOf result.program (run.replace run.main)) _ _ _ _ declarable externalVisible
  refine (Validity.checkStmts_of_forall (List.forall_mem_append.mpr ⟨?_, ?_⟩)).1
  · intro stmt member
    obtain ⟨outer, isOuter, rfl⟩ : ∃ outer, run.gathering.outer = some outer ∧
        Plan.convert outer (run.inst run.main) external = stmt := by
      simpa using member
    exact ⟨rfl, run.convert_keeps isOuter (run.checkExpr_inst dependent holderVisible).1 externalOk⟩
  · refine List.forall_mem_singleton.mpr ⟨rfl, ⟨copied, known, ?_⟩, by simpa using externalOk⟩
    simpa [returns] using run.external_ne_void

/-- What stands around the old body of the entry point is valid. -/
theorem encloses (acyclic : result.program.tables.Acyclic) (dependent : run.main ∈ run.dependents)
    (isLocal : run.plan.hasLocal = true)
    (known : result.program.tables.functions[(run.replace run.main).index]? = some copied)
    (surrounds : run.plan.Surrounds run.thread.base run.thread.locals result.program.tables entry
      (run.inst run.main) copied entering leaving) :
    Encloses (contextOf result.program (run.replace run.main))
      (copied.params.map Param.variableId) (run.inst run.main) entering leaving := by
  obtain ⟨holder, declarable⟩ := run.local_declarable dependent isLocal
  have starts {others : List VariableId} := @run.startValues_keep _ _ _ _
    (run.replace run.main) (run.inst run.main :: others) dependent (by simp)
  cases surrounds with
  | kept shape => exact Validity.encloses_of_fills declarable starts
  | fieldParams shape struct count news =>
    refine Validity.encloses_of_fills declarable (List.forall_mem_append.mpr ⟨?_, starts⟩)
    intro stmt member
    obtain ⟨position, inside, rfl⟩ := List.mem_mapIdx.mp member
    obtain ⟨param, paramDeclarable⟩ := run.new_param (news _ (List.getElem_mem inside))
    refine ⟨rfl, run.checkExpr_inst_field dependent (by simp) struct (count ▸ inside),
      Validity.checkExpr_of_visible paramDeclarable ?_⟩
    exact List.mem_cons_of_mem _ (List.mem_map_of_mem
      (List.mem_append_right _ (List.getElem_mem inside)))
  | @textureParams name fields params shape struct news =>
    refine Validity.encloses_of_fills declarable (List.forall_mem_append.mpr ⟨?_, starts⟩)
    refine run.connect_keeps (run.slot_reached acyclic dependent (by simp) shape struct)
      fun param member => ?_
    obtain ⟨paramEntry, paramDeclarable⟩ := run.new_param (news param member)
    exact Validity.checkExpr_of_visible paramDeclarable
      (List.mem_cons_of_mem _ (List.mem_map_of_mem (List.mem_append_right _ member)))
  | indexParam shape struct new =>
    obtain ⟨paramEntry, paramDeclarable⟩ := run.new_param new
    refine Validity.encloses_of_fills declarable (List.forall_mem_cons.mpr ⟨⟨rfl,
      run.checkExpr_inst_field dependent (by simp) struct (by simp),
      Validity.checkExpr_construct_iff.mpr ?_⟩, starts⟩)
    simpa using Validity.checkExpr_of_visible paramDeclarable (by simp [Function.prepend])
  | converted shape bridged new taken =>
    obtain ⟨paramEntry, paramDeclarable⟩ := run.new_param new
    refine Validity.encloses_of_fills declarable (List.forall_mem_singleton.mpr ⟨rfl, ?_⟩)
    exact run.convert_keeps bridged
      (Validity.checkExpr_of_visible paramDeclarable (by simp [Function.prepend]))
      (run.checkExpr_inst dependent (by simp)).1
  | @returning external shape void outside =>
    obtain ⟨externalEntry, externalDeclarable⟩ := run.external_declarable outside
    have leaves {visible : List VariableId} (holderVisible : run.inst run.main ∈ visible)
        (externalVisible : external ∈ visible) :=
      run.epilogue_checks dependent known rfl externalDeclarable holderVisible externalVisible
    cases isOuter : run.plan.outer with
    | none =>
      obtain rfl : run.inst run.main = external :=
        (run.thread.ready.uniform _ _ (run.thread.inst_local dependent isLocal) outside).mpr isOuter
      have encloses := @Validity.encloses_of_fills _ (entry.params.map Param.variableId) _ _ _
        declarable starts
      exact ⟨encloses.enters, encloses.opened, fun visible sees =>
        leaves (sees (encloses.opened (by simp))) (sees (encloses.opened (by simp)))⟩
    | some outer =>
      -- The external variable is declared next to the internal one.
      obtain ⟨startsOk, opened⟩ := Validity.checkStmts_of_forall
        (@run.startValues_keep _ _ _ _ (run.replace run.main)
          (external :: run.inst run.main :: entry.params.map Param.variableId) dependent (by simp))
      have allOpened : Validity.opensAll (.declare (run.inst run.main) none ::
          .declare external none :: run.plan.startValues (run.inst run.main))
          (entry.params.map Param.variableId) =
            external :: run.inst run.main :: entry.params.map Param.variableId := opened
      refine ⟨?_, ?_, fun visible sees => ?_⟩
      · exact Validity.checkStmts_cons_iff.mpr ⟨⟨by simp, holder, declarable⟩,
          Validity.checkStmts_cons_iff.mpr ⟨⟨by simp, externalEntry, externalDeclarable⟩, startsOk⟩⟩
      · exact allOpened ▸ List.subset_cons_self _ _
      · have seesAll : external :: run.inst run.main :: entry.params.map Param.variableId ⊆
            visible := allOpened ▸ sees
        exact leaves (seesAll (by simp)) (seesAll (by simp))

end CategoryRun

end ShaderPipeline
