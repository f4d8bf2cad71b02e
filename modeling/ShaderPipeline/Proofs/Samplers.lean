import ShaderPipeline.Proofs.References
import ShaderPipeline.Proofs.WellTypedRun

/-!
# Samplers at calls

The category of the textures changes types: where a sampler was mentioned, a field
of the instance stands, and that is a texture environment. Functions only get a
parameter more, so one that takes a sampler still takes it. A call then passes the
texture environment of a sampler for the sampler itself, and this is the only way
in which lowering leaves an argument with another type than its parameter has.
-/

namespace ShaderPipeline

/-! ## Expressions without addresses -/

namespace Expr

variable {names : VariableId → Prop} {callees : FunctionId → Prop}

/-- No address is taken. -/
def Direct : Expr → Prop := Every (Uses (fun _ => True) (fun _ => True) fun _ => False)

/-- An expression that takes no address uses none. -/
theorem Direct.uses {expr : Expr} (direct : expr.Direct)
    (uses : expr.Every (Uses names callees fun _ => True)) :
    expr.Every (Uses names callees fun _ => False) := by
  intro node inside
  have here := uses node inside
  have direct := direct node inside
  cases node with
  | addressOf => exact direct
  | _ => exact here

end Expr

/-- No body takes an address. -/
def Program.NoAddresses (program : Program) : Prop :=
  ∀ definition ∈ program.definitions, ∀ root ∈ Block.roots definition.2, root.Direct

/-! ## Texture environments -/

namespace Tables

variable {before after tables : Tables} {type env other : TypeId}

/-- A sampler is told to be one while the tables grow, and nothing else is. -/
theorem isSampler_extends (extended : before.Extends after) {answer : Bool}
    (tested : before.isSampler type = .ok answer) : after.isSampler type = .ok answer := by
  obtain ⟨extents, base, entry, shape, known, isAnswer⟩ := isSampler_eq_ok_iff.mp tested
  exact isSampler_eq_ok_iff.mpr
    ⟨extents, base, entry, shape.extends extended, extended.types known, isAnswer⟩

/-- The elements of an array of samplers are samplers. -/
theorem isSampler_element {element : TypeId} {size : Nat}
    (array : tables.types[type.index]? = some (.array element size))
    (tested : tables.isSampler type = .ok true) : tables.isSampler element = .ok true := by
  obtain ⟨extents, base, entry, shape, known, isAnswer⟩ := isSampler_eq_ok_iff.mp tested
  cases shape with
  | base baseKnown plain =>
    obtain rfl : _ = Ty.array _ _ := Option.some.inj (baseKnown.symm.trans array)
    simp [Ty.isArray] at plain
  | array arrayKnown inner =>
    obtain ⟨rfl, -⟩ : _ = element ∧ _ = size := by simpa using arrayKnown.symm.trans array
    exact isSampler_eq_ok_iff.mpr ⟨_, base, entry, inner, known, isAnswer⟩

/-- A texture environment is a struct. -/
theorem Sound.env_struct (sound : tables.Sound) {kind : ImageKind}
    (registered : tables.textureEnvs.lookup kind = some env) :
    ∃ name fields, tables.types[env.index]? = some (.struct name fields) := by
  obtain ⟨first, second, same, -⟩ := List.lookup_eq_some_iff.mp registered
  have member : (kind, env) ∈ tables.textureEnvs := by simp [same]
  obtain ⟨_, _, _, struct, -⟩ := sound.envs member
  exact ⟨_, _, struct⟩

/-- What takes the place of a sampler is no sampler. -/
theorem EnvFor.last (sound : tables.Sound) (first : tables.EnvFor type env) :
    ¬ tables.EnvFor env other := by
  intro second
  cases first with
  | single sampler registered =>
    obtain ⟨_, _, struct⟩ := sound.env_struct registered
    cases second with
    | single image => simp [struct] at image
    | array arrayed => simp [struct] at arrayed
  | array arrayed sampler registered made =>
    obtain ⟨_, _, struct⟩ := sound.env_struct registered
    cases second with
    | single image => simp [made] at image
    | array arrayed image =>
      obtain ⟨rfl, -⟩ : _ ∧ _ := by simpa using made.symm.trans arrayed
      simp [struct] at image

/-- The expression reads a field of an instance of the struct. -/
def Reads (tables : Tables) (struct : TypeId) (expr : Expr) : Prop :=
  ∃ id entry position, .field (.var id) position ∈ expr.nodes ∧
    tables.vars[id.index]? = some entry ∧ entry.type = struct ∧ entry.scope ≠ .global

/-- The expression may be passed for a parameter of the type, now that the textures are gathered in
a struct: it has the type, or it reads a field of the struct and has the type of the texture
environment that took the place of the sampler. -/
def Fits (tables : Tables) (structs : CategoryStructs) (expr : Expr) (type : TypeId) : Prop :=
  tables.HasType expr type ∨
    ∃ env pair struct, tables.isSampler type = .ok true ∧ tables.EnvFor type env ∧
      tables.HasType expr env ∧ (.textures, pair) ∈ structs ∧ pair.internal = some struct ∧
      tables.Reads struct expr

/-- The expression may be passed and takes no address. -/
def FitsDirectly (tables : Tables) (structs : CategoryStructs) (expr : Expr) (type : TypeId) :
    Prop :=
  expr.Direct ∧ tables.Fits structs expr type

end Tables

/-! ## Arguments -/

namespace CategoryRun

variable {shader result : Shader} {category : Category} {supplied : Option VariableId}
  (run : CategoryRun shader category supplied result) {function : FunctionId} {expr : Expr}

/-- What the substitution does to types: a sampler turns into its texture environment, if it is made
of a gathered variable, and all other types stay. -/
def Swaps (expr : Expr) (type other : TypeId) : Prop :=
  other = type ∨ category = .textures ∧ (∃ id ∈ run.gathering.members, .var id ∈ expr.nodes) ∧
    result.program.tables.isSampler type = .ok true ∧ result.program.tables.EnvFor type other

/-- What a mention of a variable becomes has the type of the variable, or that of its texture
environment. -/
theorem swaps_symbol {id : VariableId} {entry : Variable}
    (depends : id ∈ run.gathering.members → function ∈ run.dependents)
    (known : shader.program.tables.vars[id.index]? = some entry) (inside : .var id ∈ expr.nodes) :
    ∃ type, result.program.tables.HasType ((run.change function).symbol id) type ∧
      run.Swaps expr entry.type type := by
  obtain ⟨type, typed, same | ⟨member, field, rfl, -, represents⟩⟩ := run.typeOf_symbol depends known
  · exact ⟨type, typed, .inl same⟩
  refine ⟨_, typed, ?_⟩
  unfold Tables.Represents at represents
  split at represents
  case isTrue textures =>
    obtain ⟨env, envFor, rfl⟩ := represents
    have tested := (run.mem_members.mp member).2
    have entryOk : shader.program.tables.variableAt id = .ok entry :=
      Tables.variableAt_eq_ok_iff.mpr known
    simp only [Category.claims, textures, entryOk, Outcome.ok_bind] at tested
    exact .inr ⟨textures, ⟨id, member, inside⟩, Tables.isSampler_extends run.extended tested, envFor⟩
  case isFalse => exact .inl (by rw [represents])

/-- So it is with all expressions that take no address. -/
theorem swaps_subst (direct : expr.Direct)
    (uses : expr.Every (Expr.Uses (run.Mentions function) (run.Calls function) fun _ => True))
    {type : TypeId} (typed : shader.program.tables.HasType expr type) :
    ∃ other, result.program.tables.HasType (expr.subst (run.change function)) other ∧
      run.Swaps expr type other := by
  obtain ⟨sound, -⟩ := run.result_closed
  have stay {index : Nat} {entry : Ty}
      (known : shader.program.tables.types[index]? = some entry) :
      result.program.tables.types[index]? = some entry := run.extended.types known
  have tracks : Tables.Tracks (run.Swaps expr) shader.program.tables result.program.tables
      (run.change function) (fun id => run.Mentions function id ∧ .var id ∈ expr.nodes)
      (run.Calls function) fun _ => False := {
    stay := stay
    same := fun _ => .inl rfl
    struct := by
      rintro type other name fields (same | ⟨-, -, -, envFor⟩) known
      · exact same
      · cases envFor with
        | single image => simp [stay known] at image
        | array arrayed => simp [stay known] at arrayed
    isScalar := by
      rintro type other entry (rfl | ⟨-, -, -, envFor⟩) known
      · exact ⟨entry, stay known, rfl⟩
      · cases envFor with
        | single image registered =>
          obtain ⟨_, _, struct⟩ := sound.env_struct registered
          obtain rfl := Option.some.inj ((stay known).symm.trans image)
          exact ⟨_, struct, rfl⟩
        | array arrayed _ _ made =>
          obtain rfl := Option.some.inj ((stay known).symm.trans arrayed)
          exact ⟨_, made, rfl⟩
    element := by
      rintro type other element entry (rfl | ⟨textures, mentions, sampler, envFor⟩) known isElement
      · exact ⟨entry, element, stay known, isElement, .inl rfl⟩
      · cases envFor with
        | single image =>
          obtain rfl := Option.some.inj ((stay known).symm.trans image)
          simp [Ty.element?] at isElement
        | array arrayed image registered made =>
          obtain rfl := Option.some.inj ((stay known).symm.trans arrayed)
          obtain rfl := Option.some.inj isElement
          exact ⟨_, _, made, rfl, .inr ⟨textures, mentions, Tables.isSampler_element arrayed sampler,
            .single image registered⟩⟩
    addressOf := fun none => none.elim
    symbols := fun ⟨mentions, inside⟩ known => run.swaps_symbol mentions.2 known inside
    calls := fun calls known => ⟨_, run.typeOf_called calls.1 known, .inl rfl⟩ }
  refine tracks.typeOf (fun node inside => ?_) typed
  have here := direct.uses uses node inside
  cases node with
  | var id => exact ⟨here, inside⟩
  | _ => exact here

/-- A substitution takes no addresses. -/
theorem direct_subst (direct : expr.Direct) : (expr.subst (run.change function)).Direct := by
  refine Expr.every_subst (fun id _ => ?_) (fun callee args _ each => ?_)
    (fun _ none => none.elim) direct
  · simp only [change, Gathering.threading]
    split
    · split <;> simp [Expr.Uses]
    · simp [Expr.Uses]
  · simp only [change, Gathering.threading]
    split <;> simpa [Expr.Uses] using each

end CategoryRun

namespace StepRun

variable {shader result : Shader} {category : Category} {supplied : Option VariableId}
  (step : StepRun shader category supplied result) {function : FunctionId} {expr : Expr}

/-- What read a field of an instance still does. -/
theorem reads_subst {struct : TypeId} (reads : shader.program.tables.Reads struct expr) :
    result.program.tables.Reads struct (expr.subst (step.run.change function)) := by
  obtain ⟨id, entry, position, inside, known, isType, inner⟩ := reads
  obtain ⟨gone, there⟩ := step.evolves.vars known
  refine ⟨id, _, position, ?_, there, by simpa using isType, by simpa using inner⟩
  have kept := @CategoryRun.subst_mem_nodes _ _ _ _ step.run function _ _ inside
  rwa [Expr.subst, Expr.subst, step.run.symbol_inner known inner] at kept

/-- What mentioned a gathered variable now reads a field of the instance. -/
theorem reads_member {id : VariableId} (unsupplied : supplied = none)
    (member : id ∈ step.run.gathering.members) (inside : .var id ∈ expr.nodes)
    (dependent : function ∈ step.run.dependents) :
    result.program.tables.Reads step.gathering.internal (expr.subst (step.run.change function)) := by
  obtain ⟨holder, entry, isHolder, known, isType, inner⟩ :=
    (step.run.inst_lends dependent).evolves step.pruning_evolves
  obtain rfl := Expr.var.inj isHolder
  have kept := @CategoryRun.subst_mem_nodes _ _ _ _ step.run function _ _ inside
  have isField : (step.run.change function).symbol id =
      .field (.var (step.run.inst function)) (step.run.gathering.members.idxOf id) := by
    simp [CategoryRun.change, Gathering.threading, member, step.run.supplied_eq, unsupplied]
  rw [Expr.subst, isField] at kept
  refine ⟨_, entry, _, kept, known, isType, ?_⟩
  rcases inner with ⟨scope, -⟩ | ⟨-, scope | scope, -⟩ <;> simp [scope]

/-- What fits a parameter still does after a category. -/
theorem fits_subst {structs : CategoryStructs} (among : (category, step.gathering.structs) ∈ structs)
    (direct : expr.Direct)
    (uses : expr.Every
      (Expr.Uses (step.run.Mentions function) (step.run.Calls function) fun _ => True))
    {type : TypeId} (fits : shader.program.tables.Fits structs expr type) :
    result.program.tables.Fits structs (expr.subst (step.run.change function)) type := by
  have sameSampler (type : TypeId) : result.program.tables.isSampler type =
      step.threaded.program.tables.isSampler type := by
    rw [step.pruned.tables_eq]
    exact Tables.isSampler_congr (Tables.retire_types _) type
  rcases fits with typed | ⟨env, pair, struct, sampler, envFor, typed, textures, isStruct, reads⟩
  · obtain ⟨other, otherTyped, rfl | ⟨rfl, ⟨id, member, inside⟩, sampler, envFor⟩⟩ :=
      step.run.swaps_subst direct uses typed
    · exact .inl (by rwa [step.hasType_eq])
    · have unsupplied : supplied = none := by
        by_contra some
        have only := step.run.only (Option.isSome_iff_ne_none.mpr some)
        simp at only
      refine .inr ⟨other, _, _, sameSampler type ▸ sampler, envFor.evolves step.pruning_evolves,
        by rwa [step.hasType_eq], among, rfl, step.reads_member unsupplied member inside ?_⟩
      exact (uses _ inside).2 member
  · obtain ⟨other, otherTyped, rfl | ⟨-, -, -, again⟩⟩ := step.run.swaps_subst direct uses typed
    · refine .inr ⟨other, pair, struct, ?_, envFor.evolves step.evolves, by rwa [step.hasType_eq],
        textures, isStruct, step.reads_subst reads⟩
      rw [sameSampler]
      exact Tables.isSampler_extends step.run.extended sampler
    · exact absurd again ((envFor.evolves
        (step.run.gather.evolves.trans step.run.threaded_adds.evolves)).last step.run.result_closed.1)

/-- So all that calls pass still fits. -/
theorem result_fits {structs : CategoryStructs} (among : (category, step.gathering.structs) ∈ structs)
    (before : ∀ definition ∈ shader.program.definitions, Block.Every (Expr.Calling
      (shader.program.tables.Passes (shader.program.tables.FitsDirectly structs))) definition.2) :
    ∀ definition ∈ result.program.definitions, Block.Every (Expr.Calling
      (result.program.tables.Passes (result.program.tables.FitsDirectly structs))) definition.2 := by
  refine step.result_passes before (fun uses ⟨direct, fits⟩ =>
    ⟨step.run.direct_subst direct, step.fits_subst among direct uses fits⟩) fun known => ⟨?_, .inl ?_⟩
  · simp [Expr.Direct, Expr.Uses]
  · exact Tables.typeOf_var_iff.mpr ⟨_, known, rfl⟩

end StepRun

/-! ## Lowering -/

/-- In a lowered shader all arguments of calls fit their parameters: they have the same type, or the
parameter is a sampler, and its texture environment is passed, from the struct that the textures are
gathered in. -/
theorem Shader.lower_passes_samplers {shader lowered : Shader} {supplied : Option VariableId}
    {structs : CategoryStructs} (orderly : shader.program.Orderly)
    (direct : shader.program.NoAddresses)
    (typed : ∀ definition ∈ shader.program.definitions, Block.Every
      (Expr.Calling (shader.program.tables.Passes shader.program.tables.HasType)) definition.2)
    (lowers : shader.lower supplied = .ok (structs, lowered)) :
    ∀ definition ∈ lowered.program.definitions, Block.Every
      (Expr.Calling (lowered.program.tables.Passes (lowered.program.tables.Fits structs)))
      definition.2 := by
  -- Besides, the arguments take no addresses, unlike the statements around the entry point.
  have first : ∀ definition ∈ shader.program.definitions, Block.Every (Expr.Calling
      (shader.program.tables.Passes (shader.program.tables.FitsDirectly structs))) definition.2 := by
    intro definition defined root own
    refine (typed definition defined root own).calling fun callee args inside passes => ?_
    have parts := (direct definition defined root own).part inside
    exact passes.imp fun arg member type hasType =>
      ⟨(Expr.every_call.mp parts).2 arg member, .inl hasType⟩
  obtain ⟨-, kept⟩ := (Lowering.lowerCategories_inv lowers).keeps
    (fun shader => ∀ definition ∈ shader.program.definitions, Block.Every (Expr.Calling
      (shader.program.tables.Passes (shader.program.tables.FitsDirectly structs))) definition.2)
    (fun step among => step.result_fits among) orderly first
  exact fun definition defined root own => (kept definition defined root own).calling
    fun _ _ _ passes => passes.imp fun _ _ _ fits => fits.2

/-- A shader that passes its sampler to a helper, which samples it. -/
def Shader.picking : Shader where
  program := {
    tables := {
      stage := .fragment
      types := (predefinedTypes ++
        [Ty.image ⟨.float, .planar, true, false, false, false⟩]).toArray
      vars := #[
        { name := ⟨"s", .shaderInterface⟩, type := ⟨21⟩, decorations := [.uniform], scope := .global },
        { name := .temporary "t", type := ⟨21⟩, scope := .parameter },
        { name := .temporary "color", type := .vec4, scope := .local }]
      functions := #[.named "pick" [⟨⟨1⟩, .input⟩] .vec4 .notApplicable,
        .named "main" [] .void .notApplicable] }
    globals := [.var ⟨0⟩,
      .definition ⟨0⟩ [.ret (some (.sample (.var ⟨1⟩) (.construct ⟨5⟩ [.const (.float 0)])))],
      .definition ⟨1⟩ [.declare ⟨2⟩ (some (.call ⟨0⟩ [.var ⟨0⟩]))]] }

/-- The shader is orderly. -/
theorem Shader.picking_orderly : picking.program.Orderly := by decide +kernel

/-- It takes no address. -/
theorem Shader.picking_direct : picking.program.NoAddresses := by
  intro definition defined
  rcases List.mem_pair.mp defined with rfl | rfl <;> simp [Expr.Direct, Expr.Uses]

/-- It passes what its parameters ask for. -/
theorem Shader.picking_typed : ∀ definition ∈ picking.program.definitions, Block.Every
    (Expr.Calling (picking.program.tables.Passes picking.program.tables.HasType)) definition.2 := by
  intro definition defined
  rcases List.mem_pair.mp defined with rfl | rfl
  · simp [Block.every_cons, Expr.Calling]
  · have passes : picking.program.tables.Passes picking.program.tables.HasType ⟨0⟩ [.var ⟨0⟩] :=
      ⟨_, rfl, .cons ⟨_, rfl, rfl⟩ .nil⟩
    simpa [Block.every_cons, Expr.Calling] using passes

/-- Lowered, `Shader.picking` passes a texture environment for a sampler. -/
theorem Shader.lower_passes_samplers_picking : ∃ structs lowered,
    picking.lower none = .ok (structs, lowered) ∧
    ∀ definition ∈ lowered.program.definitions, Block.Every
      (Expr.Calling (lowered.program.tables.Passes (lowered.program.tables.Fits structs)))
      definition.2 := by
  obtain ⟨⟨structs, lowered⟩, lowers, -⟩ := Outcome.exists_ok_of_any
    (by decide +kernel : ((picking.lower none).toOption.any fun _ => true) = true)
  exact ⟨structs, lowered, lowers,
    lower_passes_samplers picking_orderly picking_direct picking_typed lowers⟩

/-- A call passes something that does not have the type of its parameter. -/
def Tables.mistypes (tables : Tables) : Expr → Bool
  | .call callee args => (tables.functions[callee.index]?).any fun function =>
    (args.zip function.params).any fun pair => (tables.typeOf pair.1).toOption !=
      (tables.vars[pair.2.variableId.index]?).map (·.type)
  | _ => false

/-- A call that passes what the parameters ask for mistypes nothing. -/
theorem Tables.mistypes_eq_false {tables : Tables} {expr : Expr}
    (passes : expr.Calling (tables.Passes tables.HasType)) : tables.mistypes expr = false := by
  cases expr with
  | call callee args =>
    obtain ⟨function, known, each⟩ := passes
    simp only [mistypes, known, Option.any_some, List.any_eq_false, Prod.forall]
    intro arg param among
    obtain ⟨entry, entryKnown, hasType⟩ := (List.forall₂_iff_zip.mp each).2 among
    simp only [HasType] at hasType
    simp [entryKnown, hasType, Except.toOption]
  | _ => rfl

/-- So an argument of the lowered `Shader.picking` does not have the type of its parameter. -/
theorem Shader.picking_mismatch : picking.program.Orderly ∧
    picking.program.tables.FunctionsClosed ∧ picking.program.NoAddresses ∧
    (∀ definition ∈ picking.program.definitions, Block.Every
      (Expr.Calling (picking.program.tables.Passes picking.program.tables.HasType)) definition.2) ∧
    ∃ structs lowered, picking.lower none = .ok (structs, lowered) ∧
      ¬ ∀ definition ∈ lowered.program.definitions, Block.Every
        (Expr.Calling (lowered.program.tables.Passes lowered.program.tables.HasType))
        definition.2 := by
  refine ⟨picking_orderly, by decide, picking_direct,
    picking_typed, ?_⟩
  obtain ⟨⟨structs, lowered⟩, lowers, differs⟩ := Outcome.exists_ok_of_any
    (by decide +kernel : ((picking.lower none).toOption.any fun found =>
      found.2.program.definitions.any fun definition => (Block.roots definition.2).any fun root =>
        root.nodes.any found.2.program.tables.mistypes) = true)
  refine ⟨structs, lowered, lowers, fun typed => ?_⟩
  simp only [List.any_eq_true] at differs
  obtain ⟨definition, defined, root, own, node, inside, differs⟩ := differs
  have passes := Tables.mistypes_eq_false (typed definition defined root own node inside)
  exact absurd differs (by simp [passes])

end ShaderPipeline
