import ShaderPipeline.Proofs.Validity.Occurrences
import ShaderPipeline.Proofs.Validity.Threaded

/-!
# What a category keeps

A grounded program is an orderly one whose types are made of earlier ones and
whose functions have known parameters. Gathering and threading a category keeps a
program grounded, so the next category finds what it needs.
-/

namespace ShaderPipeline

/-- An orderly program in which all identities are known and the types are well-founded. -/
structure Program.Grounded (program : Program) (sizes : Nat → Prop) : Prop
    extends program.Orderly where
  acyclic : program.tables.Acyclic
  sized : program.tables.Sized sizes
  params : ∀ {index : Nat} {function : Function},
    program.tables.functions[index]? = some function →
      ∀ param ∈ function.params, param.variableId.index < program.tables.vars.size

namespace Tables

variable {before middle after : Tables} {sizes : Nat → Prop}

/-- Types refer to earlier ones however many variables and functions are added. -/
theorem Adds.acyclic (adds : before.Adds after) (acyclic : before.Acyclic) : after.Acyclic :=
  fun there => acyclic (adds.sameTypes ▸ there)

/-- The sizes of arrays stay however many variables and functions are added. -/
theorem Adds.sized (adds : before.Adds after) (sized : before.Sized sizes) : after.Sized sizes :=
  fun there => sized (adds.sameTypes ▸ there)

/-- Nothing that asks for a pointer comes in with variables and functions. -/
theorem Quiet.adds (quiet : Quiet before middle) (adds : middle.Adds after) :
    Quiet before after := by
  intro type pointer missing found
  refine quiet type pointer missing ?_
  rwa [← find?_congr adds.sameTypes]

/-- A sampler is a sampled image under its arrays. -/
theorem isSampler_inv {tables : Tables} {type : TypeId} (sampler : tables.isSampler type = .ok true) :
    ∃ extents base kind, tables.HasShape type extents base ∧
      tables.types[base.index]? = some (.image kind) ∧ kind.sampled = true := by
  simp only [isSampler, Outcome.bind_eq_ok_iff, Outcome.pure_eq_ok, Except.ok.injEq] at sampler
  obtain ⟨entry, baseOk, sampled⟩ := sampler
  obtain ⟨shape, known⟩ := hasShape_of_baseOf baseOk
  cases entry with
  | image kind => exact ⟨_, _, kind, shape, known, sampled⟩
  | scalar | vector | matrix | texture | sampler | struct | array | pointer | eliminated =>
    simp [Ty.isSampledImage] at sampled

/-- A sampler, or an array of them, is told to be one. -/
theorem Acyclic.isSampler {tables : Tables} (acyclic : tables.Acyclic) {type base : TypeId}
    {extents : List Nat} {kind : ImageKind} (shape : tables.HasShape type extents base)
    (known : tables.types[base.index]? = some (.image kind)) (sampled : kind.sampled = true) :
    tables.isSampler type = .ok true := by
  obtain ⟨others, otherBase, otherShape, short⟩ := acyclic.hasShape shape.index_lt
  obtain ⟨rfl, rfl⟩ := shape.unique otherShape
  have inside := shape.index_lt
  have baseOk := shape.baseOf_eq known (by omega)
  simp [Tables.isSampler, baseOk, Ty.isSampledImage, sampled]

/-- A known type that is neither an image nor an array is no sampler. -/
theorem isSampler_ne {tables : Tables} {type : TypeId} {entry : Ty}
    (known : tables.types[type.index]? = some entry) (notImage : entry.isSampledImage = false)
    (notArray : entry.isArray = false) : tables.isSampler type ≠ .ok true := by
  intro sampler
  obtain ⟨extents, base, kind, shape, baseKnown, sampled⟩ := isSampler_inv sampler
  cases shape with
  | base =>
    obtain rfl : entry = .image kind := by simpa [known] using baseKnown
    simp [Ty.isSampledImage, sampled] at notImage
  | array array =>
    obtain rfl : entry = _ := by simpa [known] using array
    simp [Ty.isArray] at notArray

/-- A substitution that swaps no samplers keeps addresses as they should be. -/
theorem Carries.addresses {old new : Tables} {change : Substitution} {names : VariableId → Prop}
    {callees : FunctionId → Prop} {swaps : Prop}
    (carries : Carries swaps old new change names callees) (notSwapped : ¬ swaps)
    (extended : old.Extends new) (closed : old.Closed) (acyclic : old.Acyclic) {operand : Expr}
    (allowed : operand.Every (old.Allows swaps names callees)) (addresses : old.Addresses operand) :
    new.Addresses (operand.subst change) := by
  obtain ⟨type, entry, typed, known, addressable⟩ := addresses
  obtain ⟨other, otherTyped, stands⟩ := carries.typeOf allowed typed
  cases stands with
  | same =>
    refine ⟨type, entry, otherTyped, carries.stay known, fun sampler => ?_⟩
    obtain ⟨extents, base, kind, shape, baseKnown, sampled⟩ := isSampler_inv sampler
    have oldShape := closed.hasShape extended shape (index_lt_of_getElem? known)
    have oldKnown : old.types[base.index]? = some (.image kind) := by
      obtain ⟨baseEntry, baseThere, -⟩ := oldShape.base_known
      obtain rfl : baseEntry = .image kind := by
        simpa [carries.stay baseThere] using baseKnown
      exact baseThere
    have wasSampler := acyclic.isSampler oldShape oldKnown sampled
    by_contra found
    obtain ⟨pointer, isFound⟩ := Option.ne_none_iff_exists'.mp found
    rcases carries.quiet type pointer (addressable wasSampler) isFound entry known with
      rfl | ⟨texture, rfl⟩
    · exact isSampler_ne known rfl rfl wasSampler
    · exact isSampler_ne known rfl rfl wasSampler
  | sealed _ _ composite =>
    obtain ⟨pointee, pointer⟩ := composite.resolve_left fun swapped => notSwapped swapped.1
    exact ⟨other, _, otherTyped, pointer, fun sampler =>
      absurd sampler (isSampler_ne pointer rfl rfl)⟩
  | samplers swapped => exact absurd swapped notSwapped

/-- The parameters of a replacement are those of the function or new. -/
theorem params_of_replaced {plan : Plan} {tables : Tables} {function copy : Function}
    {news : List Variable} (replaced : plan.Replaced tables function news copy) :
    ∀ param ∈ copy.params, param ∈ function.params ∨
      param.variableId.index < (tables.addVariables news).vars.size := by
  have appended {count : Nat} (enough : news.length = count) :
      ∀ param ∈ function.params ++ tables.nextParams count, param ∈ function.params ∨
        param.variableId.index < (tables.addVariables news).vars.size := by
    intro param member
    refine (List.mem_append.mp member).imp_right fun new => ?_
    obtain ⟨offset, inside, rfl⟩ := List.mem_map.mp new
    have bound := (List.mem_range'_1.mp inside).2
    simpa [Tables.addVariables, enough] using bound
  cases replaced with
  | helper | indexParam | structParam =>
    intro param member
    rcases List.mem_cons.mp member with rfl | old
    · exact .inr (by simp [Tables.addVariables])
    · exact .inl old
  | returning => exact fun param member => .inl member
  | fieldParams => exact appended (by simp)
  | textureParams => exact appended rfl

end Tables

namespace CategoryRun

open Validity (contextOf checkDefinition)

variable {shader result : Shader} {category : Category} {supplied : Option VariableId}
  {sizes : Nat → Prop} (run : CategoryRun shader category supplied result)
  (grounded : shader.program.Grounded sizes)
  (filled : category.layoutRules ≠ none → ∀ size, sizes size → 0 < size)

include grounded filled

/-- The tables that the run left, and the types that were added on the way. -/
theorem grown : ∃ grown, Tables.Grows sizes shader.program.tables grown ∧
    grown.Adds result.program.tables ∧ grown.Sound ∧
    ∀ bridge, run.gather.bridge = some bridge → ∃ rules fields placements,
      run.gather.Outside grown bridge rules fields placements := by
  obtain ⟨grown, grows, adds, sound, bridges⟩ := run.gather.grown grounded.sound grounded.acyclic
    grounded.closed grounded.sized filled
  exact ⟨grown, grows, adds.trans run.threaded_adds, sound, bridges⟩

/-- Lowering a category keeps the tables sound. -/
theorem result_sound (run : CategoryRun shader category supplied result) :
    result.program.tables.Sound := by
  obtain ⟨grown, -, adds, sound, -⟩ := run.grown grounded filled
  exact adds.sound sound

/-- It keeps types referring to earlier ones. -/
theorem result_acyclic (run : CategoryRun shader category supplied result) :
    result.program.tables.Acyclic := by
  obtain ⟨grown, grows, adds, -, -⟩ := run.grown grounded filled
  exact adds.acyclic (grows.acyclic grounded.acyclic)

/-- It keeps the sizes of arrays. -/
theorem result_sized (run : CategoryRun shader category supplied result) :
    result.program.tables.Sized sizes := by
  obtain ⟨grown, grows, adds, -, -⟩ := run.grown grounded filled
  exact adds.sized (grows.sized grounded.sized)

/-- It brings in no pointers but those of texture environments. -/
theorem result_quiet (run : CategoryRun shader category supplied result) :
    Tables.Quiet shader.program.tables result.program.tables := by
  obtain ⟨grown, grows, adds, -, -⟩ := run.grown grounded filled
  exact grows.quiet.adds adds

/-- The conversion function is valid. -/
theorem check_bridge {bridge : Bridge} (bridged : run.gather.bridge = some bridge) :
    checkDefinition result.program bridge.function bridge.body = .ok () := by
  obtain ⟨grown, grows, adds, sound, bridges⟩ := run.grown grounded filled
  obtain ⟨rules, fields, placements, outside⟩ := bridges bridge bridged
  obtain ⟨name, structKnown⟩ := outside.struct
  have made := outside.bridges
  have extended := run.threaded_adds
  have functionKnown : run.gathered.program.tables.functions[bridge.function.index]? =
      some (Layout.convertFunction rules.conversion (category.structName .external)
        run.gather.middle.vars.size) := by
    rw [made.functions, made.function]
    exact Array.getElem?_push_size
  have varKnown (offset : Nat) (text : String) (struct : TypeId)
      (listed : [Layout.convertEntry "original" run.gathering.internal,
        Layout.convertEntry "modified" bridge.struct][offset]? =
          some (Layout.convertEntry text struct)) :
      Validity.Declarable result.program.tables .parameter
        ⟨run.gather.middle.vars.size + offset⟩ (Layout.convertEntry text struct) := by
    refine ⟨extended.vars ?_, rfl, rfl, .inr rfl⟩
    rw [made.vars, Tables.addVariables]
    simpa [Array.getElem?_append_right] using listed
  have internalDeclarable := varKnown 0 "original" run.gathering.internal rfl
  have externalDeclarable := varKnown 1 "modified" bridge.struct rfl
  refine Validity.checkDefinition_eq_ok_iff.mpr ⟨_, extended.functions functionKnown, ?_, ?_⟩
  · intro param member
    have either : param.variableId = ⟨run.gather.middle.vars.size⟩ ∨
        param.variableId = ⟨run.gather.middle.vars.size + 1⟩ := by
      cases conversion : rules.conversion <;>
        simp only [Layout.convertFunction, Layout.convertParams, conversion, List.mem_pair]
          at member <;>
        rcases member with rfl | rfl <;> simp
    rcases either with same | same
    · exact ⟨_, same ▸ internalDeclarable⟩
    · exact ⟨_, same ▸ externalDeclarable⟩
  · have visible (id : VariableId) (own : id = ⟨run.gather.middle.vars.size⟩ ∨
        id = ⟨run.gather.middle.vars.size + 1⟩) :
        id ∈ (Layout.convertFunction rules.conversion (category.structName .external)
          run.gather.middle.vars.size).params.map Param.variableId := by
      cases conversion : rules.conversion <;>
        simpa [Layout.convertFunction, Layout.convertParams, or_comm] using own
    have middleExtends := run.gather.extended.trans extended.toExtends
    rw [made.body, ← Layout.convertBody_congr extended.sameTypes]
    refine Layout.Assigns.checkStmts (@Layout.convertBody_assigns
      (contextOf result.program bridge.function) _ rules.conversion rules _ _ _ _ _ _ _ _
      (Validity.checkExpr_of_visible internalDeclarable (visible _ (.inl rfl)))
      (Tables.typeOf_var_iff.mpr ⟨_, internalDeclarable.known, rfl⟩)
      (middleExtends.types structKnown)
      (Validity.checkExpr_of_visible externalDeclarable (visible _ (.inr rfl)))
      (Tables.typeOf_var_iff.mpr ⟨_, externalDeclarable.known, rfl⟩)
      (extended.types made.external) fun placement member => ?_)
    exact (outside.placed.extends adds.toExtends).holds placement (Layout.mem_order.mp member)

omit grounded filled

/-! ## What the new bodies use -/

/-- What stands around the old body of the entry point calls the conversion function at most, and
takes addresses only to connect textures. -/
def Surrounding : Expr → Prop :=
  Expr.Uses (fun _ => True)
    (fun callee => ∃ outer, run.gathering.outer = some outer ∧ callee = outer.convert)
    fun _ => category = .textures

/-- Connecting textures takes addresses and calls nothing. -/
theorem connect_surrounding (isTextures : category = .textures) (holder : VariableId)
    (slots : List TextureSlot) (params : List Param) :
    Block.Every run.Surrounding (Plan.connect holder slots params) :=
  Plan.connect_every slots trivial (fun _ _ => trivial) (fun _ _ => trivial) (fun _ => trivial)
    fun _ _ => ⟨trivial, isTextures⟩

/-- What stands around the old body of the entry point calls the conversion function at most. -/
theorem surrounds_surrounding {entry copied : Function} {entering leaving : Block}
    (surrounds : run.plan.Surrounds run.thread.base run.thread.locals result.program.tables entry
      (run.inst run.main) copied entering leaving) :
    Block.Every run.Surrounding entering ∧ Block.Every run.Surrounding leaving := by
  refine surrounds.every (fun _ => trivial) (fun _ _ => trivial) (fun _ => trivial)
    (fun _ _ => trivial) (fun shape => ?_) (fun outer _ _ isOuter _ => ⟨outer, isOuter, rfl⟩)
    fun outer _ _ isOuter _ => ⟨outer, isOuter, rfl⟩
  have isTextures : category = .textures := by
    have shape : run.gathering.category.entry = .textureParams := shape
    rw [run.gather.sameCategory] at shape
    cases category <;> simp [Category.entry] at shape ⊢
  exact run.connect_surrounding isTextures _

/-- What a new body may use: it does not call the entry point, and its addresses are as they should
be if the old ones were, unless samplers were swapped. -/
def Using (shader result : Shader) (category : Category) : Expr → Prop :=
  Expr.Uses (fun _ => True) (Helps result.program.tables) fun operand =>
    category ≠ .textures → shader.program.Addressed → result.program.tables.Addresses operand

/-- The conversion function is not the entry point. -/
theorem convert_helps {outer : OuterLayout} (isOuter : run.gathering.outer = some outer) :
    Helps result.program.tables outer.convert := by
  rw [run.gather.outer] at isOuter
  obtain ⟨bridge, bridged, rfl⟩ := Option.map_eq_some_iff.mp isOuter
  obtain ⟨-, grows, -⟩ := run.gather.internal run.orderly.sound run.orderly.closed
  obtain ⟨-, entry, known, notMain⟩ := run.gather.bridge_function grows.sameFunctions bridged
  intro function there
  obtain rfl : entry = function := by
    simpa [run.threaded_adds.functions known] using there
  exact notMain

/-- So it uses no more than a new body may. -/
theorem surrounding_uses {operands : Expr → Prop}
    (textures : category = .textures → ∀ operand, operands operand) {block : Block}
    (surrounding : Block.Every run.Surrounding block) :
    Block.Every (Expr.Uses (fun _ => True) (Helps result.program.tables) operands) block :=
  fun root own => (surrounding root own).uses (fun _ _ => trivial)
    (fun _ ⟨_, isOuter, same⟩ => same ▸ run.convert_helps isOuter)
    (fun operand isTextures => textures isTextures operand)

/-- The function that stands for a helper is a helper. -/
theorem replace_helps {callee : FunctionId} (dependent : callee ∈ run.dependents)
    (helps : Helps shader.program.tables callee) :
    Helps result.program.tables (run.replace callee) := by
  obtain ⟨body, defined⟩ := run.dependent_defined dependent
  obtain ⟨entry, known, -⟩ := run.enters.isMain _ defined
  have copied := run.helper_params dependent (run.ne_main_of_helps helps) known
  intro function there
  obtain rfl : entry.prepend _ = function := by simpa [copied] using there
  exact helps entry known

/-- A known helper is one in tables that extend the old ones. -/
theorem Helps.extends {before after : Tables} {callee : FunctionId} (helps : Helps before callee)
    (extended : before.Extends after) (known : callee.index < before.functions.size) :
    Helps after callee := by
  intro function there
  have old := Array.getElem?_eq_getElem known
  obtain rfl : _ = function := by simpa [extended.functions old] using there
  exact helps _ old

/-- The functions that an old body calls are known helpers. -/
theorem called_helps {body : Block} {function callee : FunctionId}
    (orderly : shader.program.Orderly)
    (defined : (function, body) ∈ shader.program.definitions) (called : callee ∈ Block.calls body) :
    Helps shader.program.tables callee ∧
      callee.index < shader.program.tables.functions.size := by
  refine ⟨orderly.noMainCalls _ defined callee called, ?_⟩
  obtain ⟨-, count, -, other, known, -⟩ :=
    (Validity.checkDefinition_occurs (orderly.check_definition defined)).call called
  exact (Array.getElem?_eq_some_iff.mp known).1

/-- What the substituted body of a function uses, from what its old body uses. -/
theorem subst_uses {body : Block} {function : FunctionId} {operands others : Expr → Prop}
    (defined : (function, body) ∈ shader.program.definitions)
    (uses : Block.Every (Expr.Uses (fun _ => True) (fun _ => True) operands) body)
    (addresses : ∀ operand, operands operand → operand.Every (Expr.Uses (fun _ => True)
        (fun callee => Helps shader.program.tables callee ∧
          callee.index < shader.program.tables.functions.size) operands) →
      others (operand.subst (run.change function))) :
    Block.Every (Expr.Uses (fun _ => True) (Helps result.program.tables) others)
      (Block.subst body (run.change function)) := by
  have old := Block.every_uses (fun _ _ => trivial)
    (fun callee called => called_helps run.orderly defined called) uses
  intro root member
  obtain ⟨source, own, rfl⟩ := Block.mem_roots_subst.mp member
  refine Expr.every_subst (fun id _ => ?_) (fun callee args helps argsUse => ?_) addresses
    (old source own)
  · simp only [change, Gathering.threading]
    split
    · split <;> simp [Expr.Uses]
    · simp [Expr.Uses]
  · simp only [change, Gathering.threading]
    split
    case isTrue called =>
      refine Expr.every_call.mpr ⟨run.replace_helps called helps.1, ?_⟩
      exact List.forall_mem_cons.mpr ⟨by simp [Expr.Uses], argsUse⟩
    case isFalse =>
      exact Expr.every_call.mpr ⟨helps.1.extends run.extended helps.2, argsUse⟩

/-- What the bodies of the result use, from what the substituted bodies and those that stay use. -/
theorem result_uses {operands : Expr → Prop}
    (textures : category = .textures → ∀ operand, operands operand)
    (free : ∀ {function : FunctionId} {body : Block},
      (function, body) ∈ shader.program.definitions → function ∉ run.dependents →
        Block.Every (Expr.Uses (fun _ => True) (Helps result.program.tables) operands) body)
    (changed : ∀ {function : FunctionId} {body : Block},
      (function, body) ∈ shader.program.definitions → function ∈ run.dependents →
        Block.Every (Expr.Uses (fun _ => True) (Helps result.program.tables) operands)
          (Block.subst body (run.change function)))
    {definition : FunctionId × Block} (defined : definition ∈ result.program.definitions) :
    Block.Every (Expr.Uses (fun _ => True) (Helps result.program.tables) operands)
      definition.2 := by
  obtain ⟨source, gathered, turns⟩ := Outcome.forall₂_exists_left run.turns defined
  have old := run.dependent_old gathered
  cases turns with
  | free body outside =>
    rcases run.gathered_cases gathered with defined | ⟨bridge, bridged, same⟩
    · exact free defined outside
    · obtain ⟨rfl, rfl⟩ := Prod.mk.inj same
      obtain ⟨conversion, placements, isBody⟩ := run.gather.bridge_body bridged
      rw [isBody]
      exact fun root own => (Layout.convertBody_converting _ _ _ root own).uses
        (fun _ _ => trivial) (fun _ impossible => impossible.elim) fun _ impossible =>
          impossible.elim
  | helper body dependent => exact changed (old dependent) dependent
  | handed body dependent => exact changed (old dependent) dependent
  | wrapped body dependent isLocal known copiedKnown surrounds =>
    obtain ⟨entering, leaving⟩ := run.surrounds_surrounding surrounds
    have inner := changed (old dependent) dependent
    refine Block.every_append.mpr ⟨run.surrounding_uses textures entering, Block.every_cons.mpr
      ⟨?_, run.surrounding_uses textures leaving⟩⟩
    rw [Stmt.roots_block]
    unfold Plan.nest
    split
    · exact Plan.every_replaceReturns inner (run.surrounding_uses textures leaving)
    · exact inner

/-- The addresses of an old body are as they should be. -/
theorem old_addresses {body : Block} {function : FunctionId}
    (defined : (function, body) ∈ shader.program.definitions) :
    Block.Every (Expr.Uses (fun _ => True) (fun _ => True)
      fun operand => shader.program.Addressed → shader.program.tables.Addresses operand) body := by
  intro root own node inside
  cases node with
  | addressOf operand => exact fun addressed => addressed _ defined root own _ inside
  | _ => trivial

include grounded filled

/-- The substituted body of a dependent function uses what it may. -/
theorem subst_using {body : Block} {function : FunctionId}
    (defined : (function, body) ∈ shader.program.definitions)
    (dependent : function ∈ run.dependents) :
    Block.Every (Using shader result category) (Block.subst body (run.change function)) :=
  run.subst_uses defined (old_addresses defined)
    fun _ addresses operandUses notTextures addressed =>
      (run.carries (run.result_quiet grounded filled) dependent).addresses notTextures
        run.extended grounded.closed grounded.acyclic
        (operandUses.uses (fun _ _ => trivial) (fun _ helps => helps.1)
          fun _ _ isTextures => absurd isTextures notTextures) (addresses addressed)

/-- A body that stays as it is uses what it may. -/
theorem free_using {body : Block} {function : FunctionId}
    (defined : (function, body) ∈ shader.program.definitions) (free : function ∉ run.dependents) :
    Block.Every (Using shader result category) body := by
  have gathered := run.gathered_defined defined
  have uses : Block.Every (Expr.Uses (· ∉ run.gathering.members) (fun callee =>
      callee ∉ run.dependents ∧ Helps shader.program.tables callee ∧
        callee.index < shader.program.tables.functions.size)
      fun operand => shader.program.Addressed → shader.program.tables.Addresses operand) body := by
    refine Block.every_uses (fun id mentioned member => ?_) (fun callee called =>
      ⟨fun dependent => ?_, called_helps grounded.toOrderly defined called⟩) (old_addresses defined)
    · exact free (Program.mem_dependents_of_symbol run.once gathered mentioned
        (List.contains_iff_mem.mpr member))
    · exact free (Program.mem_dependents_of_call run.once gathered called dependent)
  rw [← Block.subst_default body]
  intro root member
  obtain ⟨source, own, rfl⟩ := Block.mem_roots_subst.mp member
  refine Expr.every_subst (fun id _ => by simp [Expr.Uses]) (fun callee args helps argsUse => ?_)
    (fun operand addresses operandUses notTextures addressed => ?_) (uses source own)
  · exact Expr.every_call.mpr ⟨helps.2.1.extends run.extended helps.2.2, argsUse⟩
  · have carries :=
      (@moves_free _ _ _ _ run (run.result_quiet grounded filled) function function).carries
    exact carries.addresses notTextures run.extended grounded.closed grounded.acyclic
      (operandUses.uses (fun _ outside => outside) (fun _ helps => helps.1)
        fun _ _ isTextures => absurd isTextures notTextures) (addresses addressed)

/-- Every body of the result uses what it may. -/
theorem result_using (run : CategoryRun shader category supplied result)
    {definition : FunctionId × Block} (defined : definition ∈ result.program.definitions) :
    Block.Every (Using shader result category) definition.2 :=
  run.result_uses (fun isTextures _ notTextures => absurd isTextures notTextures)
    (run.free_using grounded filled) (run.subst_using grounded filled) defined

/-- Every declaration of the result is valid. -/
theorem result_valid (run : CategoryRun shader category supplied result)
    (addresses : Addresses shader category) : result.program.check = .ok () := by
  have quiet := run.result_quiet grounded filled
  refine Program.check_eq_ok_iff.mpr ⟨run.result_enters.mainCount run.result_once, ?_⟩
  intro global member
  cases global with
  | struct | prototype => rfl
  | var id =>
    have declared := run.mem_globalVariables.mp (Gathering.mem_declaredIn.mpr member)
    obtain ⟨entry, declarable⟩ := Validity.checkVariable_eq_ok_iff.mp
      ((Program.check_eq_ok_iff.mp grounded.valid).2 _ (Gathering.mem_declaredIn.mp declared.1))
    exact Validity.checkVariable_eq_ok_iff.mpr ⟨entry, declarable.extends run.extended⟩
  | definition function body =>
    obtain ⟨source, gathered, turns⟩ :=
      Outcome.forall₂_exists_left run.turns (Program.mem_definitions.mpr member)
    have old := run.dependent_old gathered
    cases turns with
    | free _ outside =>
      rcases run.gathered_cases gathered with defined | ⟨bridge, bridged, same⟩
      · exact run.check_free quiet addresses defined outside
      · obtain ⟨rfl, rfl⟩ := Prod.mk.inj same
        exact run.check_bridge grounded filled bridged
    | helper body dependent helps =>
      obtain ⟨entry, known, -⟩ := run.enters.isMain _ (old dependent)
      exact run.check_prepended quiet addresses (old dependent) dependent known
        (run.helper_params dependent helps known)
        ⟨run.thread.helper_entry dependent helps, rfl, rfl, .inr rfl⟩
    | handed body dependent noLocal =>
      obtain ⟨entry, known, -⟩ := run.enters.isMain _ (old dependent)
      obtain ⟨there, copied⟩ := run.thread.main_handed dependent noLocal
        (run.gathered_extends.functions known)
      exact run.check_prepended quiet addresses (old dependent) dependent known copied
        ⟨there, rfl, rfl, .inr rfl⟩
    | wrapped body dependent isLocal known copiedKnown surrounds =>
      exact run.check_wrapped quiet addresses (run.result_acyclic grounded filled) (old dependent)
        dependent isLocal known copiedKnown surrounds

omit grounded filled

/-! ## Identities -/

/-- The variables that gathering adds are the parameters of the conversion function. -/
theorem gathered_vars {index : Nat} {entry : Variable}
    (known : run.gathered.program.tables.vars[index]? = some entry) :
    shader.program.tables.vars[index]? = some entry ∨ (entry.initializer = none ∧
      (entry.type = run.gathering.internal ∨ entry.type = run.gathering.external)) := by
  obtain ⟨-, grows, -⟩ := run.gather.internal run.orderly.sound run.orderly.closed
  rcases run.gather.bridged with ⟨-, same⟩ | ⟨rules, bridge, _, _, _, -, bridged, -, -, bridges, -⟩
  · exact .inl (by rwa [same, grows.sameVars] at known)
  · rw [bridges.vars, Tables.addVariables, Array.getElem?_append] at known
    split at known
    · exact .inl (by rwa [grows.sameVars] at known)
    · have external : run.gathering.external = bridge.struct := by
        simp [Gathering.external, run.gather.outer, bridged]
      rw [List.getElem?_toArray] at known
      have listed := List.mem_of_getElem? known
      rw [List.mem_pair] at listed
      rcases listed with rfl | rfl
      · exact .inr ⟨rfl, .inl rfl⟩
      · exact .inr ⟨rfl, .inr external.symm⟩

/-- A new variable has a known type and no initial value. -/
theorem var_cases (run : CategoryRun shader category supplied result) {index : Nat}
    {entry : Variable} (known : result.program.tables.vars[index]? = some entry) :
    shader.program.tables.vars[index]? = some entry ∨
      (entry.initializer = none ∧ entry.type.index < result.program.tables.types.size) := by
  obtain ⟨_, _, internal⟩ := run.internal_known
  obtain ⟨_, _, external⟩ := run.external_known
  have structs {type : TypeId} (either : type = run.gathering.internal ∨
      type = run.gathering.external) : type.index < result.program.tables.types.size := by
    rcases either with rfl | rfl
    · exact Tables.index_lt_of_getElem? internal
    · exact Tables.index_lt_of_getElem? external
  by_cases inBase : index < run.thread.base.vars.size
  · have baseKnown : run.thread.base.vars[index]? = some entry := by
      rw [run.thread.tables] at known
      rw [← known, run.thread.coherent.adds.vars (Array.getElem?_eq_getElem inBase)]
      exact Array.getElem?_eq_getElem inBase
    by_cases inGathered : index < run.gathered.program.tables.vars.size
    · have gatheredKnown : run.gathered.program.tables.vars[index]? = some entry := by
        rw [← baseKnown, run.thread.ready.adds.vars (Array.getElem?_eq_getElem inGathered)]
        exact Array.getElem?_eq_getElem inGathered
      exact (run.gathered_vars gatheredKnown).imp_right fun new => ⟨new.1, structs new.2⟩
    · obtain ⟨side, struct, rfl, either⟩ :=
        run.thread.ready.news (Nat.not_lt.mp inGathered) baseKnown
      exact .inr ⟨rfl, structs either⟩
  · obtain ⟨-, -, plain, type, typeKnown, -⟩ :=
      run.thread.coherent.params (Nat.not_lt.mp inBase) (run.thread.tables ▸ known)
    have there := run.thread.coherent.adds.types typeKnown
    rw [← run.thread.tables] at there
    exact .inr ⟨plain, Tables.index_lt_of_getElem? there⟩

/-- The types of all variables are known. -/
theorem result_vars (run : CategoryRun shader category supplied result) {index : Nat}
    {entry : Variable} (known : result.program.tables.vars[index]? = some entry) :
    entry.type.index < result.program.tables.types.size := by
  rcases run.var_cases known with old | new
  · exact Nat.lt_of_lt_of_le (run.orderly.closed.vars old) run.extended.size_types
  · exact new.2

/-- Every function of the result is an old one, the conversion function or a replacement. -/
theorem function_cases {index : Nat} {function : Function}
    (known : result.program.tables.functions[index]? = some function) :
    shader.program.tables.functions[index]? = some function ∨
      (∃ conversion name first, function = Layout.convertFunction conversion name first ∧
        first + 1 < result.program.tables.vars.size) ∨
      ∃ (id : FunctionId) (source : Function) (tables : Tables) (news : List Variable),
        shader.program.tables.functions[id.index]? = some source ∧
        run.plan.Replaced tables source news function ∧
        (tables.addVariables news).vars.size ≤ result.program.tables.vars.size := by
  by_cases inBase : index < run.thread.base.functions.size
  · -- These are the functions that were there when threading began.
    have inGathered : run.gathered.program.tables.functions[index]? = some function := by
      rw [run.thread.tables,
        run.thread.coherent.adds.functions (Array.getElem?_eq_getElem inBase)] at known
      rw [← known, ← run.thread.ready.functions]
      exact Array.getElem?_eq_getElem inBase
    obtain ⟨-, grows, -⟩ := run.gather.internal run.orderly.sound run.orderly.closed
    rcases run.gather.bridged with ⟨-, same⟩ | ⟨rules, bridge, _, _, _, -, -, -, -, bridges, -⟩
    · exact .inl (by rwa [same, grows.sameFunctions] at inGathered)
    · rw [bridges.functions, grows.sameFunctions, Array.getElem?_push] at inGathered
      split at inGathered
      · have enough : run.gathered.program.tables.vars.size =
            run.gather.middle.vars.size + 2 := by
          rw [bridges.vars]
          simp [Tables.addVariables]
        have larger := run.threaded_adds.size_vars
        exact .inr (.inl ⟨_, _, _, (Option.some.inj inGathered).symm, by omega⟩)
      · exact .inl inGathered
  · rw [run.thread.tables] at known
    obtain ⟨id, dependent, found⟩ := run.thread.coherent.covered (Nat.not_lt.mp inBase)
      (Array.getElem?_eq_some_iff.mp known).1
    obtain ⟨body, defined⟩ := run.dependent_defined dependent
    obtain ⟨source, sourceKnown, -⟩ := run.enters.isMain _ defined
    have baseKnown : run.thread.base.functions[id.index]? = some source := by
      rw [run.thread.ready.functions]
      exact run.gathered_extends.functions sourceKnown
    cases run.thread.coherent.made dependent baseKnown found with
    | stays => exact absurd (Array.getElem?_eq_some_iff.mp baseKnown).1 inBase
    | copied since replaced kept =>
      obtain rfl : _ = function := Option.some.inj ((Threading.getElem?_copy kept).symm.trans known)
      refine .inr (.inr ⟨id, source, _, _, sourceKnown, replaced, ?_⟩)
      rw [run.thread.tables]
      exact kept.size_vars

/-- The parameters of all functions are known. -/
theorem result_params (run : CategoryRun shader category supplied result)
    (params : ∀ {index : Nat} {function : Function},
      shader.program.tables.functions[index]? = some function →
        ∀ param ∈ function.params, param.variableId.index < shader.program.tables.vars.size)
    {index : Nat} {function : Function}
    (known : result.program.tables.functions[index]? = some function) :
    ∀ param ∈ function.params, param.variableId.index < result.program.tables.vars.size := by
  have larger := run.extended.size_vars
  intro param member
  rcases run.function_cases known with old | ⟨conversion, name, first, rfl, inside⟩ |
    ⟨id, source, tables, news, sourceKnown, replaced, kept⟩
  · exact Nat.lt_of_lt_of_le (params old param member) larger
  · cases conversion <;>
      simp only [Layout.convertFunction, Layout.convertParams, List.mem_pair] at member <;>
      rcases member with rfl | rfl <;> simp only <;> omega
  · rcases Tables.params_of_replaced replaced param member with own | new
    · exact Nat.lt_of_lt_of_le (params sourceKnown param own) larger
    · exact Nat.lt_of_lt_of_le new kept

/-- The functions of all prototypes are known. -/
theorem result_prototypes (run : CategoryRun shader category supplied result)
    {function : FunctionId} (member : .prototype function ∈ result.program.globals) :
    function.index < result.program.tables.functions.size := by
  obtain ⟨source, gathered, substituted⟩ := Outcome.forall₂_exists_left run.substituted member
  cases substituted with
  | prototype old =>
    by_cases dependent : old ∈ run.dependents
    · obtain ⟨body, defined⟩ := run.dependent_defined dependent
      obtain ⟨entry, known, -⟩ := run.replace_isMain (run.gathered_defined defined)
      exact (Array.getElem?_eq_some_iff.mp known).1
    · rw [run.replace_eq_self dependent]
      exact Nat.lt_of_lt_of_le (run.fits.2.prototypes old gathered)
        run.threaded_adds.size_functions

/-- Gathering and threading a category keeps a program grounded. -/
theorem result_grounded (run : CategoryRun shader category supplied result)
    (grounded : shader.program.Grounded sizes)
    (filled : category.layoutRules ≠ none → ∀ size, sizes size → 0 < size)
    (addresses : Addresses shader category) : result.program.Grounded sizes where
  valid := run.result_valid grounded filled addresses
  sound := run.result_sound grounded filled
  closed := {
    parts := fun there part member => Nat.lt_trans
      (run.result_acyclic grounded filled there part member)
      (Array.getElem?_eq_some_iff.mp there).1
    vars := run.result_vars }
  prototypes _ member := run.result_prototypes member
  onceVariables := run.globalVariables_once
  onceDefinitions := run.result_once
  noMainCalls definition defined callee called := by
    obtain ⟨args, helps⟩ := (run.result_using grounded filled defined).call called
    exact helps
  acyclic := run.result_acyclic grounded filled
  sized := run.result_sized grounded filled
  params := run.result_params grounded.params

/-- Unless it swaps samplers, a category keeps addresses as they should be. -/
theorem result_addressed (run : CategoryRun shader category supplied result)
    (grounded : shader.program.Grounded sizes)
    (filled : category.layoutRules ≠ none → ∀ size, sizes size → 0 < size)
    (notTextures : category ≠ .textures) (addressed : shader.program.Addressed) :
    result.program.Addressed := by
  intro definition defined root own node inside
  have uses := run.result_using grounded filled defined root own node inside
  cases node with
  | addressOf operand => exact uses notTextures addressed
  | _ => trivial

end CategoryRun

end ShaderPipeline
