import ShaderPipeline.Proofs.Validity.Entry

/-!
# Validity of a threaded program

Every definition of the threaded program is valid: those of dependent functions by
their substitution, that of the entry point with what stands around its old body,
that of the conversion function by itself, and the others because nothing changed.
-/

namespace ShaderPipeline

/-- Every address is taken of a value of known type, and not of a sampler that has a pointer
type. -/
def Tables.Addresses (tables : Tables) (operand : Expr) : Prop :=
  ∃ type entry, tables.typeOf operand = .ok type ∧ tables.types[type.index]? = some entry ∧
    tables.Addressable type

/-- What the addresses in a program are taken of has a type and may have its address taken. -/
def Program.Addressed (program : Program) : Prop :=
  ∀ definition ∈ program.definitions,
    Block.Every (Expr.Uses (fun _ => True) (fun _ => True) program.tables.Addresses) definition.2

namespace Block

variable {names : VariableId → Prop} {callees : FunctionId → Prop} {operands : Expr → Prop}
  {block : Block}

/-- What a block refers to, from its mentions, its calls and its addresses. -/
theorem every_uses (symbols : ∀ id ∈ block.symbols, names id)
    (calls : ∀ callee ∈ block.calls, callees callee)
    (addresses : Block.Every (Expr.Uses (fun _ => True) (fun _ => True) operands) block) :
    Block.Every (Expr.Uses names callees operands) block := by
  intro root own node inside
  have here := addresses root own node inside
  cases node with
  | var id => exact symbols id (mem_symbols_iff.mpr ⟨root, own, inside⟩)
  | call callee args =>
    exact calls callee (mem_calls_iff.mpr ⟨root, own, Expr.mem_calls_iff.mpr ⟨args, inside⟩⟩)
  | addressOf operand => exact here
  | _ => trivial

end Block

/-- The definitions of a valid program are valid. -/
theorem Program.check_definition {program : Program} (valid : program.check = .ok ())
    {body : Block} {function : FunctionId} (defined : (function, body) ∈ program.definitions) :
    Validity.checkDefinition program function body = .ok () :=
  (Program.check_eq_ok_iff.mp valid).2 _ (Program.mem_definitions.mp defined)

/-- Every definition of an orderly program passes its check. -/
theorem Program.Orderly.check_definition {program : Program} (orderly : program.Orderly)
    {body : Block} {function : FunctionId} (defined : (function, body) ∈ program.definitions) :
    Validity.checkDefinition program function body = .ok () :=
  Program.check_definition orderly.valid defined

namespace CategoryRun

open Validity (contextOf Declarable checkDefinition checkDefinition_eq_ok_iff)

variable {shader result : Shader} {category : Category} {supplied : Option VariableId}
  (run : CategoryRun shader category supplied result)

/-- The addresses in the bodies of a program are as the category needs them. -/
def Addresses (shader : Shader) (category : Category) : Prop :=
  category = .textures → shader.program.Addressed

/-- Where textures are gathered, every address in a body is one that may be taken. -/
theorem every_addresses {body : Block} {function : FunctionId}
    (addresses : Addresses shader category)
    (defined : (function, body) ∈ shader.program.definitions) :
    Block.Every (Expr.Uses (fun _ => True) (fun _ => True) fun operand => category = .textures →
      ∀ type, shader.program.tables.typeOf operand = .ok type →
        shader.program.tables.Addressable type) body := by
  intro root own node inside
  cases node with
  | addressOf operand =>
    intro textures type typed
    obtain ⟨other, -, otherTyped, -, addressable⟩ := addresses textures _ defined root own _ inside
    obtain rfl : other = type := Except.ok.inj (otherTyped.symm.trans typed)
    exact addressable
  | _ => trivial

/-- The body of a dependent function is what its substitution needs. -/
theorem allowed (orderly : shader.program.Orderly) (addresses : Addresses shader category)
    {body : Block} {function : FunctionId}
    (defined : (function, body) ∈ shader.program.definitions) :
    Block.Every (shader.program.tables.Allows (category = .textures) (fun _ => True)
      (Helps shader.program.tables)) body :=
  Block.every_uses (fun _ _ => trivial) (orderly.noMainCalls _ defined)
    (every_addresses addresses defined)

/-- The body of another function stays away from the category. -/
theorem allowed_free (addresses : Addresses shader category) {body : Block} {function : FunctionId}
    (defined : (function, body) ∈ shader.program.definitions) (free : function ∉ run.dependents) :
    Block.Every (shader.program.tables.Allows (category = .textures)
      (· ∉ run.gathering.members) (· ∉ run.dependents)) body := by
  have gathered := run.gathered_defined defined
  refine Block.every_uses (fun id mentioned member => ?_) (fun callee called dependent => ?_)
    (every_addresses addresses defined)
  · exact free (Program.mem_dependents_of_symbol run.once gathered mentioned
      (List.contains_iff_mem.mpr member))
  · exact free (Program.mem_dependents_of_call run.once gathered called dependent)

variable (quiet : Tables.Quiet shader.program.tables result.program.tables)
  (addresses : Addresses shader category)

include quiet addresses

/-- A function that does not depend on the category stays valid. -/
theorem check_free {body : Block} {function : FunctionId}
    (defined : (function, body) ∈ shader.program.definitions) (free : function ∉ run.dependents) :
    checkDefinition result.program function body = .ok () := by
  obtain ⟨entry, known, paramsOk, bodyOk⟩ :=
    checkDefinition_eq_ok_iff.mp (run.orderly.check_definition defined)
  refine checkDefinition_eq_ok_iff.mpr ⟨entry, run.extended.functions known, fun param member => ?_,
    ?_⟩
  · obtain ⟨declared, declarable⟩ := paramsOk param member
    exact ⟨declared, declarable.extends run.extended⟩
  · have moved := (run.moves_free quiet).checkStmts
      (fun declarable => declarable.extends run.extended)
      (fun owner => ⟨_, run.extended.functions owner, Iff.rfl⟩)
      (run.allowed_free addresses defined free) (List.Subset.refl _) (List.nil_subset _) bodyOk
    rwa [Block.subst_default] at moved

/-- The substituted body of a dependent function is valid where its instance is visible. -/
theorem check_body {body : Block} {function owner : FunctionId} {visible wider : List VariableId}
    (defined : (function, body) ∈ shader.program.definitions)
    (dependent : function ∈ run.dependents)
    (returns : ∀ {entry : Function}, shader.program.tables.functions[function.index]? = some entry →
      ∃ other, result.program.tables.functions[owner.index]? = some other ∧
        (other.returnType = .void ↔ entry.returnType = .void))
    (sees : visible ⊆ wider) (isVisible : run.inst function ∈ wider)
    (checked : Validity.checkStmts (contextOf shader.program function) body visible = .ok ()) :
    Validity.checkStmts (contextOf result.program owner)
      (Block.subst body (run.change function)) wider = .ok () :=
  (run.moves quiet dependent).checkStmts (fun declarable => declarable.extends run.extended)
    returns (allowed run.orderly addresses defined) sees (by simpa using isVisible) checked

/-- A function with its instance as a new first parameter is valid. -/
theorem check_prepended {body : Block} {function : FunctionId} {entry : Function}
    (defined : (function, body) ∈ shader.program.definitions)
    (dependent : function ∈ run.dependents)
    (known : shader.program.tables.functions[function.index]? = some entry)
    (copied : result.program.tables.functions[(run.replace function).index]? =
      some (entry.prepend ⟨run.inst function, .input⟩)) {variable' : Variable}
    (declarable : Declarable result.program.tables .parameter (run.inst function) variable') :
    checkDefinition result.program (run.replace function)
      (Block.subst body (run.change function)) = .ok () := by
  obtain ⟨other, otherKnown, paramsOk, bodyOk⟩ :=
    checkDefinition_eq_ok_iff.mp (run.orderly.check_definition defined)
  obtain rfl : other = entry := by simpa [known] using otherKnown.symm
  refine checkDefinition_eq_ok_iff.mpr ⟨_, copied, List.forall_mem_cons.mpr
    ⟨⟨variable', declarable⟩, fun param member => ?_⟩, ?_⟩
  · obtain ⟨declared, wasDeclarable⟩ := paramsOk param member
    exact ⟨declared, wasDeclarable.extends run.extended⟩
  · refine run.check_body quiet addresses defined dependent (fun there => ⟨_, copied, ?_⟩)
      (List.subset_cons_self _ _) (by simp [Function.prepend]) bodyOk
    obtain rfl : other = _ := by simpa [known] using there
    rfl

/-- The entry point with a local instance is valid. -/
theorem check_wrapped (acyclic : result.program.tables.Acyclic) {body : Block}
    {entry copied : Function} {entering leaving : Block}
    (defined : (run.main, body) ∈ shader.program.definitions)
    (dependent : run.main ∈ run.dependents) (isLocal : run.plan.hasLocal = true)
    (known : shader.program.tables.functions[run.main.index]? = some entry)
    (copiedKnown : result.program.tables.functions[(run.replace run.main).index]? = some copied)
    (surrounds : run.plan.Surrounds run.thread.base run.thread.locals result.program.tables entry
      (run.inst run.main) copied entering leaving) :
    checkDefinition result.program (run.replace run.main)
      (entering ++ .block (run.plan.nest leaving (Block.subst body (run.change run.main))) ::
        leaving) = .ok () := by
  obtain ⟨other, otherKnown, paramsOk, bodyOk⟩ :=
    checkDefinition_eq_ok_iff.mp (run.orderly.check_definition defined)
  obtain rfl : other = entry := by simpa [known] using otherKnown.symm
  obtain ⟨keepsParams, newParams⟩ := run.surrounds_params surrounds
  have encloses := run.encloses acyclic dependent isLocal copiedKnown surrounds
  refine checkDefinition_eq_ok_iff.mpr ⟨copied, copiedKnown, fun param member => ?_, ?_⟩
  · rcases newParams param member with old | new
    · obtain ⟨declared, declarable⟩ := paramsOk param old
      exact ⟨declared, declarable.extends run.extended⟩
    · exact run.new_param new
  · refine Validity.checkStmts_append_iff.mpr ⟨encloses.enters,
      Validity.checkStmts_cons_iff.mpr ⟨?_, encloses.leaves _ (List.Subset.refl _)⟩⟩
    have sees : other.params.map Param.variableId ⊆
        Validity.opensAll entering (copied.params.map Param.variableId) :=
      List.Subset.trans (List.map_subset _ keepsParams)
        (List.Subset.trans (List.subset_cons_self _ _) encloses.opened)
    have isVisible := encloses.opened (List.mem_cons_self)
    -- Inside, the old body keeps the old return type until its returns are replaced.
    have inner : Validity.checkStmts (contextOf result.program run.main)
        (Block.subst body (run.change run.main))
        (Validity.opensAll entering (copied.params.map Param.variableId)) = .ok () :=
      run.check_body quiet addresses defined dependent
        (fun there => ⟨_, run.extended.functions there, Iff.rfl⟩) sees isVisible bodyOk
    unfold Plan.nest
    split
    case isTrue out =>
      have void : other.returnType = .void := by
        cases surrounds with
        | returning _ void => exact void
        | kept shape | fieldParams shape | textureParams shape | indexParam shape
        | converted shape => simp [Category.isOut_eq_false, shape] at out
      rw [Plan.replaceReturns_eq_map]
      have left := @Validity.checkStmts_leaving (contextOf result.program run.main) _
        (run.replace run.main) other leaving _ _ (run.extended.functions known) void
        encloses.leaves (List.Subset.refl _) inner
      rwa [Stmt.leavingAll_eq_map] at left
    case isFalse plain =>
      refine run.check_body quiet addresses defined dependent (fun there => ⟨_, copiedKnown, ?_⟩)
        sees isVisible bodyOk
      obtain rfl : other = _ := by simpa [known] using there
      cases surrounds with
      | returning shape => exact absurd (Category.isOut_eq_true shape) plain
      | kept | fieldParams | textureParams | indexParam | converted => rfl

end CategoryRun

end ShaderPipeline
