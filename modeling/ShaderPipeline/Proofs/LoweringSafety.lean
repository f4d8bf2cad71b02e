import ShaderPipeline.Proofs.CategoryStep
import ShaderPipeline.Session.Run

/-!
# Lowering is safe

A shader that its makers can be trusted with is lowered without a fault. Every
category leaves what the next one needs, and the validity check after it passes;
the only way to fail is to report an entry point that returns a value.
-/

namespace ShaderPipeline

/-! ## The type of a valid expression -/

namespace Tables

variable {tables : Tables}

/-- The type of an expression is found and known. -/
def Typed (tables : Tables) (expr : Expr) : Prop :=
  ∃ type entry, tables.typeOf expr = .ok type ∧ tables.types[type.index]? = some entry

/-- The types that an expression constructs are known. -/
def Constructs (tables : Tables) : Expr → Prop
  | .construct type _ => type.index < tables.types.size
  | _ => True

/-- A type that is found and within the tables is known. -/
theorem typed_of_lt {type : TypeId} {expr : Expr} (typed : tables.typeOf expr = .ok type)
    (inside : type.index < tables.types.size) : tables.Typed expr :=
  ⟨type, _, typed, Array.getElem?_eq_getElem inside⟩

end Tables

/-- Where all types are known, a valid expression has one. -/
theorem Validity.checkExpr_typed {context : Context} {visible : List VariableId} {expr : Expr}
    (sound : context.tables.Sound) (closed : context.tables.Closed)
    (returns : ∀ {index : Nat} {function : Function},
      context.tables.functions[index]? = some function →
        function.returnType.index < context.tables.types.size)
    (constructs : expr.Every context.tables.Constructs)
    (checked : checkExpr context visible expr = .ok ()) : context.tables.Typed expr := by
  have fixed {type : TypeId} {entry : Ty} (known : predefinedTypes[type.index]? = some entry)
      {expr : Expr} (typed : context.tables.typeOf expr = .ok type) : context.tables.Typed expr :=
    ⟨type, entry, typed, sound.predefined known⟩
  induction expr with
  | const value =>
    cases value with
    | float | int | uint | bool => exact fixed rfl rfl
  | var id =>
    obtain ⟨-, entry, known, -⟩ := checkExpr_var_iff.mp checked
    exact Tables.typed_of_lt (Tables.typeOf_var_iff.mpr ⟨entry, known, rfl⟩) (closed.vars known)
  | field base position inBase =>
    obtain ⟨-, type, name, fields, typed, known, inside⟩ := checkExpr_field_iff.mp checked
    have there := List.getElem?_eq_getElem inside
    refine Tables.typed_of_lt (Tables.typeOf_field_iff.mpr
      ⟨type, name, fields, _, typed, known, there, rfl⟩) (closed.parts known _ ?_)
    exact List.mem_map_of_mem (List.getElem_mem inside)
  | index base position inBase =>
    obtain ⟨-, -, type, entry, element, typed, known, isElement⟩ := checkExpr_index_iff.mp checked
    refine Tables.typed_of_lt (Tables.typeOf_index_iff.mpr ⟨type, entry, typed, known, isElement⟩)
      (closed.parts known _ ?_)
    cases entry <;> simp_all [Ty.element?, Ty.parts]
  | unary op operand inOperand =>
    exact inOperand (Expr.every_unary.mp constructs).2 (checkExpr_unary.symm.trans checked)
  | binary op left right inLeft inRight =>
    obtain ⟨-, leftConstructs, rightConstructs⟩ := Expr.every_binary.mp constructs
    obtain ⟨leftOk, rightOk⟩ := checkExpr_binary_iff.mp checked
    obtain ⟨leftType, leftEntry, leftTyped, leftKnown⟩ := inLeft leftConstructs leftOk
    have leftFound : context.tables.typeAt leftType = .ok leftEntry := by simpa using leftKnown
    by_cases truth : op.givesBool = true
    · exact fixed rfl (by rw [Tables.typeOf, if_pos truth])
    · by_cases scalar : leftEntry.isScalar = true
      · obtain ⟨rightType, rightEntry, rightTyped, rightKnown⟩ := inRight rightConstructs rightOk
        exact ⟨rightType, rightEntry, by
          simp [Tables.typeOf, truth, leftTyped, leftFound, scalar, rightTyped], rightKnown⟩
      · exact ⟨leftType, leftEntry, by
          simp [Tables.typeOf, truth, leftTyped, leftFound, scalar], leftKnown⟩
  | construct type args =>
    exact Tables.typed_of_lt rfl (Expr.every_construct.mp constructs).1
  | call callee args =>
    obtain ⟨-, -, function, known, -⟩ := checkExpr_call_iff.mp checked
    exact Tables.typed_of_lt (Tables.typeOf_call_iff.mpr ⟨function, known, rfl⟩) (returns known)
  | sample => exact fixed rfl rfl
  | addressOf operand inOperand =>
    obtain ⟨type, entry, typed, known⟩ :=
      inOperand (Expr.every_addressOf.mp constructs).2 (checkExpr_addressOf.symm.trans checked)
    have isAddress := Tables.typeOf_addressOf_iff.mpr ⟨type, typed, rfl⟩
    unfold Tables.addressType at isAddress
    cases found : context.tables.find? (.pointer type) with
    | none => exact ⟨type, entry, by simpa [found] using isAddress, known⟩
    | some pointer =>
      exact ⟨pointer, _, by simpa [found] using isAddress, Tables.find?_known found⟩

/-! ## Going through the categories -/

/-- What the categories that are still to be lowered need. -/
structure Shader.Ready (shader : Shader) (categories : List Category)
    (supplied : Option VariableId) (sizes : Nat → Prop) : Prop where
  grounded : shader.program.Grounded sizes
  samplers : .textures ∈ categories → shader.SamplersReady
  addressed : .textures ∈ categories → shader.program.Addressed
  supplied : ∀ id, supplied = some id → shader.program.tables.HoldsStruct id

namespace Shader

variable {shader result : Shader} {category : Category} {categories : List Category}
  {supplied given : Option VariableId} {sizes : Nat → Prop}

/-- A shader that is ready for several categories suits the first of them. -/
theorem Ready.suits (ready : shader.Ready (category :: categories) supplied sizes)
    (filled : ∀ size, sizes size → 0 < size) :
    shader.Suits category (category.suppliedTo supplied) sizes where
  grounded := ready.grounded
  filled _ := filled
  samplers textures := ready.samplers (by simp [textures])
  addresses textures := ready.addressed (by simp [textures])
  supplied id given := by
    unfold Category.suppliedTo at given
    split at given
    · exact ready.supplied id given
    · simp at given

/-- A shader that is ready for several categories is ready for those after the first. -/
theorem Ready.tail (ready : shader.Ready (category :: categories) supplied sizes) :
    shader.Ready categories supplied sizes where
  grounded := ready.grounded
  samplers pending := ready.samplers (List.mem_cons_of_mem _ pending)
  addressed pending := ready.addressed (List.mem_cons_of_mem _ pending)
  supplied := ready.supplied

end Shader

namespace StepRun

variable {shader result : Shader} {category : Category} {categories : List Category}
  {supplied given : Option VariableId} {sizes : Nat → Prop}

/-- Pruning after threading leaves the types. -/
theorem types_eq (step : StepRun shader category given result) :
    result.program.tables.types = step.threaded.program.tables.types := by
  rw [step.pruned.tables_eq, Tables.retire_types]

/-- The samplers that are still declared are as they were. -/
theorem samplersReady (step : StepRun shader category given result)
    (grounded : shader.program.Grounded sizes) (samplers : shader.SamplersReady) :
    result.SamplersReady := by
  intro id declared entry known sampler
  have declaredBefore := step.globalVariables declared
  obtain ⟨before, declarable⟩ := Validity.checkVariable_eq_ok_iff.mp
    ((Program.check_eq_ok_iff.mp grounded.valid).2 _ (Gathering.mem_declaredIn.mp declaredBefore))
  obtain ⟨gone, after⟩ := step.vars declarable.known
  obtain rfl : before.retire gone = entry := by simpa [known] using after.symm
  rw [Variable.retire_type] at sampler ⊢
  -- The type was there before, with the same arrays over the same image.
  obtain ⟨extents, base, kind, shape, baseKnown, sampled⟩ := Tables.isSampler_inv sampler
  have old := grounded.closed.hasShape step.run.extended (shape.congr step.types_eq.symm)
    (grounded.closed.vars declarable.known)
  obtain ⟨baseEntry, baseBefore, -⟩ := old.base_known
  obtain rfl : baseEntry = .image kind := by simpa [step.types baseBefore] using baseKnown
  have wasSampler := Tables.Acyclic.isSampler grounded.acyclic old baseBefore sampled
  obtain ⟨free, others, otherKind, short, otherBase, otherShape, -⟩ :=
    samplers id declaredBefore declarable.known wasSampler
  obtain ⟨rfl, rfl⟩ := old.unique otherShape
  refine ⟨?_, others, kind, short, otherBase, shape, baseKnown⟩
  rwa [Invariance.hasVariable, step.invariance, step.run.result_invariance,
    ← Invariance.hasVariable]

/-- A lowered category leaves what the next ones need. -/
theorem ready (step : StepRun shader category (category.suppliedTo supplied) result)
    (ready : shader.Ready (category :: categories) supplied sizes)
    (once : (category :: categories).Nodup) (filled : ∀ size, sizes size → 0 < size) :
    result.Ready categories supplied sizes where
  grounded := step.result_grounded (ready.suits filled)
  samplers pending := step.samplersReady ready.grounded (ready.tail.samplers pending)
  addressed pending := by
    refine step.result_addressed (ready.suits filled) ?_ (ready.tail.addressed pending)
    rintro rfl
    exact (List.nodup_cons.mp once).1 pending
  supplied id isSupplied := by
    obtain ⟨entry, name, fields, known, struct⟩ := ready.supplied id isSupplied
    obtain ⟨gone, after⟩ := step.vars known
    exact ⟨_, name, fields, after, by rw [Variable.retire_type]; exact step.types struct⟩

end StepRun

/-- Categories are lowered one after the other, up to one that refuses the entry point. -/
theorem Lowering.lowerCategories_settles {shader : Shader} {categories : List Category}
    {supplied : Option VariableId} {sizes : Nat → Prop}
    (ready : shader.Ready categories supplied sizes) (once : categories.Nodup)
    (filled : ∀ size, sizes size → 0 < size) :
    (∃ structs result, lowerCategories (fun _ => .ok ()) supplied categories shader =
        (.ok (structs, result) : Result _) ∧ result.program.Grounded sizes) ∨
      ∃ category ∈ categories, category.isOut = true ∧
        lowerCategories (fun _ => .ok ()) supplied categories shader =
          (report (.nonVoidMain category) : Result _) := by
  induction categories generalizing shader with
  | nil => exact .inl ⟨[], shader, rfl, ready.grounded⟩
  | cons category categories inductionHypothesis =>
    rcases lowerCategory_settles (ready.suits filled) with ⟨refused, isOut, -⟩ |
      ⟨⟨structs, next⟩, lowered, passedOrDone⟩
    · exact .inr ⟨category, by simp, isOut, by rw [lowerCategories, refused]; rfl⟩
    · have nextReady : next.Ready categories supplied sizes := by
        rcases passedOrDone with ⟨passed, -⟩ | ⟨step, -⟩
        · obtain rfl : next = shader := congrArg Prod.snd passed
          exact ready.tail
        · exact step.ready ready once filled
      rcases inductionHypothesis nextReady (List.nodup_cons.mp once).2 with
        ⟨others, result, lowersOn, grounded⟩ | ⟨refusing, member, isOut, refused⟩
      · exact .inl ⟨_, result, by simp only [lowerCategories, lowered, lowersOn, Outcome.ok_bind]; rfl,
          grounded⟩
      · exact .inr ⟨refusing, List.mem_cons_of_mem _ member, isOut, by
          simp only [lowerCategories, lowered, refused, Outcome.ok_bind]; rfl⟩

/-! ## Shaders that can be trusted -/

/-- What the makers of a shader are trusted to keep: it is valid, its identities are known, its types
are made of earlier ones, nothing is declared twice and the entry point is never called. Arrays have
elements, samplers are flat and not invariant, and supplied uniforms are a struct. -/
structure Shader.Trusted (shader : Shader) (supplied : Option VariableId) : Prop where
  valid : shader.program.check = .ok ()
  sound : shader.program.tables.Sound
  acyclic : shader.program.tables.Acyclic
  variableTypes : ∀ entry ∈ shader.program.tables.vars,
    entry.type.index < shader.program.tables.types.size
  functions : ∀ function ∈ shader.program.tables.functions,
    function.returnType.index < shader.program.tables.types.size ∧
      ∀ param ∈ function.params, param.variableId.index < shader.program.tables.vars.size
  constructs : ∀ definition ∈ shader.program.definitions,
    Block.Every shader.program.tables.Constructs definition.2
  prototypes : ∀ function, .prototype function ∈ shader.program.globals →
    function.index < shader.program.tables.functions.size
  onceVariables : shader.program.globalVariables.Nodup
  onceDefinitions : (shader.program.definitions.map Prod.fst).Nodup
  noMainCalls : ∀ definition ∈ shader.program.definitions, ∀ callee ∈ Block.calls definition.2,
    ∀ function, shader.program.tables.functions[callee.index]? = some function →
      function.isMain = false
  sized : shader.program.tables.Sized (0 < ·)
  flat : ∀ {type base : TypeId} {extents : List Nat} {kind : ImageKind},
    shader.program.tables.HasShape type extents base →
    shader.program.tables.types[base.index]? = some (.image kind) → kind.sampled = true →
      extents.length ≤ 1
  variant : ∀ id ∈ shader.program.globalVariables, ∀ {entry : Variable},
    shader.program.tables.vars[id.index]? = some entry →
    shader.program.tables.isSampler entry.type = .ok true →
      shader.invariance.hasVariable id = false
  supplied : ∀ id, supplied = some id → shader.program.tables.HoldsStruct id

/-- No address is taken of a sampler that has a pointer type. -/
def Program.Unpointed (program : Program) : Prop :=
  ∀ definition ∈ program.definitions, Block.Every (Expr.Uses (fun _ => True) (fun _ => True)
    fun operand => ∀ type, program.tables.typeOf operand = .ok type →
      program.tables.Addressable type) definition.2

namespace Shader.Trusted

variable {shader : Shader} {supplied : Option VariableId}

/-- A shader that is made as trusted is grounded. -/
theorem grounded (trusted : shader.Trusted supplied) : shader.program.Grounded (0 < ·) where
  valid := trusted.valid
  sound := trusted.sound
  closed := Tables.closed_of_acyclic trusted.acyclic trusted.variableTypes
  prototypes := trusted.prototypes
  onceVariables := trusted.onceVariables
  onceDefinitions := trusted.onceDefinitions
  noMainCalls := trusted.noMainCalls
  acyclic := trusted.acyclic
  sized := trusted.sized
  params known := (trusted.functions _ (Array.mem_of_getElem? known)).2

/-- Every address is taken of a value of known type. -/
theorem addressed (trusted : shader.Trusted supplied) (unpointed : shader.program.Unpointed) :
    shader.program.Addressed := by
  intro definition defined root own node inside
  cases node with
  | addressOf operand =>
    obtain ⟨visible, -, checked⟩ := (Validity.checkDefinition_checked
      (trusted.grounded.check_definition defined)).1 root own _ inside
    have constructs : operand.Every shader.program.tables.Constructs := by
      intro part member
      refine trusted.constructs definition defined root own part ?_
      exact Expr.nodes_subset inside (List.mem_cons_of_mem _ member)
    obtain ⟨type, entry, typed, known⟩ := Validity.checkExpr_typed trusted.sound
      trusted.grounded.closed (fun known => (trusted.functions _ (Array.mem_of_getElem? known)).1)
      constructs (Validity.checkExpr_addressOf.symm.trans checked)
    exact ⟨type, entry, typed, known, unpointed definition defined root own _ inside type typed⟩
  | _ => trivial

/-- If no pointer type stands in the way, it is ready for all categories. -/
theorem ready (trusted : shader.Trusted supplied) (unpointed : shader.program.Unpointed) :
    shader.Ready Category.all supplied (0 < ·) where
  grounded := trusted.grounded
  samplers _ id declared entry known sampler := by
    obtain ⟨extents, base, kind, shape, baseKnown, sampled⟩ := Tables.isSampler_inv sampler
    exact ⟨trusted.variant id declared known sampler, extents, kind,
      trusted.flat shape baseKnown sampled, base, shape, baseKnown⟩
  addressed _ := trusted.addressed unpointed
  supplied := trusted.supplied

end Shader.Trusted

/-- A shader that can be trusted, and takes no address of a sampler that has a pointer type, is
lowered to a valid one. The only failure is that of an entry point that returns a value; it is
reported, and whatever is asked next finds the shader as it was. -/
theorem Shader.lower_safe {shader : Shader} {supplied : Option VariableId}
    (trusted : shader.Trusted supplied) (unpointed : shader.program.Unpointed) :
    (∃ structs result, shader.lower supplied = .ok (structs, result) ∧
        result.program.check = .ok ()) ∨
      ∃ category, category.isOut = true ∧
        shader.lower supplied = report (.nonVoidMain category) ∧
        ∀ rest, Session.respond shader (.lower supplied false :: rest) =
          ⟨.error (.reported (.nonVoidMain category)), none⟩ :: Session.respond shader rest := by
  rcases Lowering.lowerCategories_settles (trusted.ready unpointed) (by decide)
    (fun _ positive => positive) with ⟨structs, result, lowers, grounded⟩ |
    ⟨category, -, isOut, refused⟩
  · exact .inl ⟨structs, result, lowers, grounded.valid⟩
  · have reported : shader.lower supplied = report (.nonVoidMain category) := refused
    refine .inr ⟨category, isOut, reported, fun rest => ?_⟩
    simp only [Session.respond, Session.handle, Session.perform, reported]
    rfl

/-- A small shader without arrays, constructors and invariant variables can be trusted. -/
theorem Shader.Trusted.ofPlain {shader : Shader} (orderly : shader.program.Orderly)
    (acyclic : shader.program.tables.Acyclic)
    (functions : ∀ function ∈ shader.program.tables.functions,
      function.returnType.index < shader.program.tables.types.size ∧
        ∀ param ∈ function.params, param.variableId.index < shader.program.tables.vars.size)
    (noArrays : ∀ type ∈ shader.program.tables.types, type.isArray = false)
    (noConstructors : ∀ definition ∈ shader.program.definitions,
      ∀ root ∈ Block.roots definition.2, ∀ node ∈ root.nodes, node.kind ≠ .construct)
    (variant : shader.invariance = {}) : shader.Trusted none where
  valid := orderly.valid
  sound := orderly.sound
  acyclic := acyclic
  variableTypes entry member := by
    obtain ⟨index, inside, rfl⟩ := Array.getElem_of_mem member
    exact orderly.closed.vars (Array.getElem?_eq_getElem inside)
  functions := functions
  constructs definition defined root own node inside := by
    cases node with
    | construct type args => exact absurd rfl (noConstructors definition defined root own _ inside)
    | _ => trivial
  prototypes := orderly.prototypes
  onceVariables := orderly.onceVariables
  onceDefinitions := orderly.onceDefinitions
  noMainCalls := orderly.noMainCalls
  sized known := by simpa [Ty.isArray] using noArrays _ (Array.mem_of_getElem? known)
  flat shape _ _ := by
    cases shape with
    | base => simp
    | array known => simpa [Ty.isArray] using noArrays _ (Array.mem_of_getElem? known)
  variant id _ entry _ _ := by simp [Invariance.hasVariable, variant]
  supplied := by simp

/-- Lowering `Shader.storing` is safe. -/
theorem Shader.lower_safe_storing : storing.Trusted none ∧
    ((∃ structs result, storing.lower none = .ok (structs, result) ∧
        result.program.check = .ok ()) ∨
      ∃ category, category.isOut = true ∧
        storing.lower none = report (.nonVoidMain category) ∧
        ∀ rest, Session.respond storing (.lower none false :: rest) =
          ⟨.error (.reported (.nonVoidMain category)), none⟩ :: Session.respond storing rest) := by
  have trusted : storing.Trusted none := .ofPlain storing_orderly (by decide) (by decide)
    (by decide) (by decide) rfl
  have noAddress : ∀ definition ∈ storing.program.definitions, Block.Every
      (Expr.Uses (fun _ => True) (fun _ => True) fun _ => False) definition.2 := by decide
  have unpointed : storing.program.Unpointed := fun definition defined root own =>
    (noAddress definition defined root own).uses (fun _ => id) (fun _ => id) fun _ => False.elim
  exact ⟨trusted, lower_safe trusted unpointed⟩

/-- A shader that samples through the address of its sampler, which has a pointer type. -/
def Shader.pointing : Shader where
  program := {
    tables := {
      stage := .fragment
      types := (predefinedTypes ++
        [Ty.image ⟨.float, .planar, true, false, false, false⟩, Ty.pointer ⟨21⟩]).toArray
      vars := #[
        { name := ⟨"s", .shaderInterface⟩, type := ⟨21⟩, decorations := [.uniform], scope := .global },
        { name := .temporary "color", type := .vec4, scope := .local }]
      functions := #[.named "main" [] .void .notApplicable] }
    globals := [.var ⟨0⟩,
      .definition ⟨0⟩ [.declare ⟨1⟩ none, .assign (.var ⟨1⟩)
        (.sample (.index (.addressOf (.var ⟨0⟩)) (.const (.int 0))) (.var ⟨1⟩))]] }

/-- Where the address of a sampler is taken, and it has a pointer type, trust is not enough: the
texture environment that takes its place has none, so it cannot be followed. -/
theorem Shader.pointing_faults :
    pointing.Trusted none ∧ ∃ violation, pointing.lower none = defect (.invalid violation) := by
  have breaks : (match pointing.lower none with
      | .error failure => failure.isViolation
      | .ok _ => false) = true := by decide +kernel
  refine ⟨.ofPlain (by decide +kernel) (by decide) (by decide) (by decide) (by decide) rfl, ?_⟩
  split at breaks
  case h_1 failure fails =>
    unfold Failure.isViolation at breaks
    split at breaks
    · exact ⟨_, fails⟩
    · simp at breaks
  case h_2 => simp at breaks

end ShaderPipeline
