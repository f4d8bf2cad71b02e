import ShaderPipeline.Proofs.CategoryRun
import ShaderPipeline.Proofs.Evolution
import ShaderPipeline.Proofs.Validity.Moves

/-!
# Bodies of a lowered category

The substitution of a category puts a field of the function's instance in the
place of a gathered variable, and a call of the replacement in the place of a call
of a dependent function. Both are valid wherever the instance is visible, so the
bodies stay valid; bodies that do not depend on the category do not change.
-/

namespace ShaderPipeline

namespace Tables

variable {old new : Tables}

/-- The texture environments of a sampler stand for it. -/
theorem StandsFor.stands {type env : TypeId} (standsFor : old.StandsFor new type env)
    (sampler : old.isSampler type = .ok true) {swaps : Prop} (swapped : swaps) :
    Stands swaps old new type env := by
  obtain ⟨extents, kind, base, ⟨short, image, shape, known⟩, isEnv, envShape⟩ := standsFor
  obtain ⟨_, _, _, struct, -⟩ := isEnv
  have isOpaque (element : TypeId) (there : old.types[element.index]? = some (.image kind)) :
      old.Opaque element := by
    intro entry entryKnown
    obtain rfl : entry = .image kind := by simpa [there] using entryKnown.symm
    exact ⟨rfl, rfl, rfl⟩
  cases shape with
  | base =>
    cases envShape with
    | base =>
      exact .sealed (isOpaque _ known) (.inl ⟨swapped, sampler⟩) (.inl ⟨swapped, _, struct, rfl⟩)
  | @array _ element _ size extents array inner =>
    cases inner with
    | array => simp at short
    | base elementKnown plain =>
      obtain ⟨envKnown, partKnown⟩ : ∃ part, new.types[env.index]? = some (.array part size) ∧
          part = base := by
        cases envShape with
        | array envKnown inner =>
          cases inner with
          | base => exact ⟨_, envKnown, rfl⟩
      obtain ⟨envKnown, rfl⟩ := partKnown
      have inside := index_lt_of_getElem? known
      -- The element is sampled because the array counts as a sampler.
      have elementSampler : old.isSampler image = .ok true := by
        have deep : [size].length ≤ old.types.size := by simp; omega
        have outerBase := (HasShape.array array (.base elementKnown plain)).baseOf_eq known deep
        have innerBase := (HasShape.base elementKnown plain).baseOf_eq known (Nat.zero_le _)
        simpa [isSampler, outerBase, innerBase] using sampler
      exact .samplers swapped array sampler elementSampler (isOpaque _ known) envKnown rfl rfl
        ⟨_, struct, rfl⟩

end Tables

namespace CategoryRun

open Validity (contextOf Moves Declarable Callable)

variable {shader result : Shader} {category : Category} {supplied : Option VariableId}
  (run : CategoryRun shader category supplied result)

/-- The function is not the entry point. -/
def Helps (tables : Tables) (callee : FunctionId) : Prop :=
  ∀ function, tables.functions[callee.index]? = some function → function.isMain = false

/-- A helper is not the entry point. -/
theorem ne_main_of_helps {callee : FunctionId} (helps : Helps shader.program.tables callee) :
    callee ≠ run.main := by
  rintro rfl
  obtain ⟨body, defined⟩ := run.enters.defined
  obtain ⟨entry, known, isMain⟩ := run.enters.isMain _ defined
  have notMain := helps entry known
  simp [isMain.mpr rfl] at notMain

/-- The field of the instance that a gathered variable became. -/
theorem member_access {position : Nat} {id : VariableId} {entry : Variable}
    (there : run.gathering.members[position]? = some id)
    (known : shader.program.tables.vars[id.index]? = some entry) (unsupplied : supplied = none) :
    ∃ name fields field, result.program.tables.types[run.gathering.internal.index]? =
        some (.struct name fields) ∧ fields[position]? = some field ∧
      Tables.FieldFor category shader.program.tables result.program.tables entry field ∧
      Tables.Represents category result.program.tables entry field := by
  obtain ⟨fields, struct, isFields⟩ := run.member_field unsupplied
  obtain ⟨others, gatheredStruct, represented⟩ := run.gather.represented unsupplied
  obtain rfl : others = fields := by
    simpa using (run.threaded_adds.types gatheredStruct).symm.trans struct
  obtain ⟨place, rfl⟩ := List.getElem?_eq_some_iff.mp there
  have inside : position < others.length := isFields.length_eq ▸ place
  obtain ⟨other, otherKnown, isField⟩ := isFields.get place inside
  obtain ⟨again, againKnown, represents⟩ := represented.get place inside
  obtain rfl := Option.some.inj (known.symm.trans otherKnown)
  obtain rfl := Option.some.inj (known.symm.trans againKnown)
  exact ⟨_, others, _, struct, List.getElem?_eq_getElem inside, isField,
    represents.evolves run.threaded_adds.evolves⟩

/-- The field that a gathered variable became stands for it. -/
theorem member_stands {id : VariableId} (member : id ∈ run.gathering.members) {entry : Variable}
    (known : shader.program.tables.vars[id.index]? = some entry) {field : Field}
    (isField : Tables.FieldFor category shader.program.tables result.program.tables entry field) :
    Tables.Stands (category = .textures) shader.program.tables result.program.tables entry.type
      field.type := by
  unfold Tables.FieldFor at isField
  split at isField
  case isTrue isTextures =>
    obtain ⟨env, rfl, standsFor⟩ := isField
    have tested := (run.mem_members.mp member).2
    have entryOk : shader.program.tables.variableAt id = .ok entry :=
      Tables.variableAt_eq_ok_iff.mpr known
    simp only [Category.claims, isTextures, entryOk, Outcome.ok_bind] at tested
    exact standsFor.stands tested isTextures
  case isFalse =>
    rw [isField]
    exact .same entry.type

/-- The supplied instance is the one that was gathered with. -/
theorem supplied_eq : run.gathering.supplied = supplied := run.gather.sameSupplied

/-- The type of what a mention of a variable becomes: that of the variable, or that of the field
which it became. -/
theorem typeOf_symbol {function : FunctionId} {id : VariableId} {entry : Variable}
    (depends : id ∈ run.gathering.members → function ∈ run.dependents)
    (known : shader.program.tables.vars[id.index]? = some entry) :
    ∃ type, result.program.tables.typeOf ((run.change function).symbol id) = .ok type ∧
      (type = entry.type ∨ id ∈ run.gathering.members ∧ ∃ field, field.type = type ∧
        Tables.FieldFor category shader.program.tables result.program.tables entry field ∧
        Tables.Represents category result.program.tables entry field) := by
  by_cases member : id ∈ run.gathering.members
  · obtain ⟨holder, holderKnown, holderType, -⟩ := run.inst_known (depends member)
    simp only [change, Gathering.threading, member, if_true, run.supplied_eq]
    rcases Option.eq_none_or_eq_some supplied with isSupplied | ⟨given, isSupplied⟩
    · obtain ⟨name, fields, field, struct, there, isField, represents⟩ :=
        run.member_access (List.getElem?_idxOf member) known isSupplied
      refine ⟨field.type, ?_, .inr ⟨trivial, field, rfl, isField, represents⟩⟩
      simp only [isSupplied]
      exact Tables.typeOf_field_iff.mpr ⟨_, name, fields, field,
        Tables.typeOf_var_iff.mpr ⟨holder, holderKnown, holderType⟩, struct, there, rfl⟩
    · obtain ⟨members, other, name, fields, otherKnown, sameType, -⟩ :=
        run.member_supplied isSupplied
      obtain rfl : id = given := by simpa [members] using member
      obtain rfl : other = entry := by simpa [known] using otherKnown.symm
      refine ⟨other.type, ?_, .inl rfl⟩
      simp only [isSupplied]
      exact Tables.typeOf_var_iff.mpr ⟨holder, holderKnown, holderType.trans sameType⟩
  · refine ⟨entry.type, ?_, .inl rfl⟩
    simp only [change, Gathering.threading, member, if_false]
    exact Tables.typeOf_var_iff.mpr ⟨entry, run.extended.vars known, rfl⟩

/-- A call of a helper becomes one of the same type. -/
theorem typeOf_called {function callee : FunctionId} {entry : Function} {args : List Expr}
    (helps : callee ≠ run.main)
    (known : shader.program.tables.functions[callee.index]? = some entry) :
    result.program.tables.typeOf ((run.change function).call callee args) =
      .ok entry.returnType := by
  simp only [change, Gathering.threading]
  split
  case isTrue called =>
    exact Tables.typeOf_call_iff.mpr ⟨_, run.helper_params called helps known, rfl⟩
  case isFalse => exact Tables.typeOf_call_iff.mpr ⟨entry, run.extended.functions known, rfl⟩

/-- The types in the body of a dependent function. -/
theorem carries (quiet : Tables.Quiet shader.program.tables result.program.tables)
    {function : FunctionId} (dependent : function ∈ run.dependents) :
    Tables.Carries (category = .textures) shader.program.tables result.program.tables
      (run.change function) (fun _ => True) (Helps shader.program.tables) where
  stay := run.extended.types
  quiet := quiet
  symbols := by
    intro id entry _ known
    obtain ⟨type, typed, same | ⟨member, field, rfl, isField, -⟩⟩ :=
      @typeOf_symbol _ _ _ _ run function _ _ (fun _ => dependent) known
    · exact ⟨type, typed, same ▸ .same _⟩
    · exact ⟨_, typed, run.member_stands member known isField⟩
  calls helps known :=
    ⟨_, run.typeOf_called (run.ne_main_of_helps helps) known, .same _⟩

/-- A variable that is not gathered may still be mentioned. -/
theorem checkExpr_var {id : VariableId} (free : id ∉ run.gathering.members)
    {owner other : FunctionId} {visible : List VariableId}
    (checked : Validity.checkExpr (contextOf shader.program owner) visible (.var id) = .ok ()) :
    Validity.checkExpr (contextOf result.program other) visible (.var id) = .ok () := by
  obtain ⟨inScope, entry, known, alive⟩ := Validity.checkExpr_var_iff.mp checked
  refine Validity.checkExpr_var_iff.mpr ⟨inScope.imp_left fun global => ?_, entry,
    run.extended.vars known, alive⟩
  exact run.mem_globalVariables.mpr ⟨global, free⟩

/-- A function that does not depend on the category may still be called. -/
theorem callable {callee : FunctionId} (free : callee ∉ run.dependents) {owner other : FunctionId}
    {count : Nat} (callable : Callable (contextOf shader.program owner) callee count) :
    Callable (contextOf result.program other) callee count := by
  obtain ⟨declared, function, known, sameCount⟩ := callable
  refine ⟨?_, function, run.extended.functions known, sameCount⟩
  have replaced := run.replace_declared (run.gathered_declared declared)
  rwa [run.replace_eq_self free] at replaced

/-- The bodies of dependent functions. -/
theorem moves (quiet : Tables.Quiet shader.program.tables result.program.tables)
    {function owner other : FunctionId} (dependent : function ∈ run.dependents) :
    Moves (category = .textures) (contextOf shader.program owner) (contextOf result.program other)
      (run.change function) [run.inst function] (fun _ => True) (Helps shader.program.tables) where
  carries := run.carries quiet dependent
  symbols := by
    intro id visible _ anchored checked
    obtain ⟨holder, holderKnown, holderType, alive⟩ := run.inst_known dependent
    have holderOk : Validity.checkExpr (contextOf result.program other) visible
        (.var (run.inst function)) = .ok () :=
      Validity.checkExpr_var_iff.mpr ⟨.inr (anchored (by simp)), holder, holderKnown, alive⟩
    by_cases member : id ∈ run.gathering.members
    · obtain ⟨-, entry, known, -⟩ := Validity.checkExpr_var_iff.mp checked
      rcases Option.eq_none_or_eq_some supplied with isSupplied | ⟨given, isSupplied⟩
      · obtain ⟨name, fields, field, struct, there, -⟩ := run.member_access
          (List.getElem?_idxOf member) known isSupplied
        simp only [change, Gathering.threading, member, if_true, run.supplied_eq, isSupplied]
        exact Validity.checkExpr_field_iff.mpr ⟨holderOk, _, name, fields,
          Tables.typeOf_var_iff.mpr ⟨holder, holderKnown, holderType⟩, struct,
          (List.getElem?_eq_some_iff.mp there).1⟩
      · simpa [change, Gathering.threading, member, run.supplied_eq, isSupplied] using holderOk
    · simp only [change, Gathering.threading, member, if_false]
      exact run.checkExpr_var member checked
  calls := by
    intro callee args visible helps anchored argsOk callable
    simp only [change, Gathering.threading]
    split
    case isTrue called =>
      obtain ⟨holder, holderKnown, -, alive⟩ := run.inst_known dependent
      have holderOk : Validity.checkExpr (contextOf result.program other) visible
          (.var (run.inst function)) = .ok () :=
        Validity.checkExpr_var_iff.mpr ⟨.inr (anchored (by simp)), holder, holderKnown, alive⟩
      obtain ⟨declared, entry, known, sameCount⟩ := callable
      have copied := run.helper_params called (run.ne_main_of_helps helps) known
      refine Validity.checkExpr_call_iff.mpr ⟨List.forall_mem_cons.mpr ⟨holderOk, argsOk⟩,
        run.replace_declared (run.gathered_declared declared), _, copied, ?_⟩
      simp [Function.prepend, sameCount]
    case isFalse free =>
      exact Validity.checkExpr_call_iff.mpr ⟨argsOk, run.callable free callable⟩

/-- The bodies of other functions, which mention no gathered variable and call no dependent
function. -/
theorem moves_free (quiet : Tables.Quiet shader.program.tables result.program.tables)
    {owner other : FunctionId} :
    Moves (category = .textures) (contextOf shader.program owner) (contextOf result.program other) {} []
      (· ∉ run.gathering.members) (· ∉ run.dependents) where
  carries := {
    stay := run.extended.types
    quiet := quiet
    symbols := fun _ known =>
      ⟨_, Tables.typeOf_var_iff.mpr ⟨_, run.extended.vars known, rfl⟩, .same _⟩
    calls := fun _ known =>
      ⟨_, Tables.typeOf_call_iff.mpr ⟨_, run.extended.functions known, rfl⟩, .same _⟩ }
  symbols free _ checked := run.checkExpr_var free checked
  calls free _ argsOk callable :=
    Validity.checkExpr_call_iff.mpr ⟨argsOk, run.callable free callable⟩

end CategoryRun

end ShaderPipeline
