import ShaderPipeline.Proofs.Orderly
import ShaderPipeline.Proofs.Pruning

/-!
# What lowering leaves alone

Whatever a shader is like, gathering a category and threading it only adds to the
tables: no type and no function changes, and a variable at most goes out of use.
`Evolves` says so of tables. Nor is a global variable declared on the way, or the
name changed that is recorded for a variable.
-/

namespace ShaderPipeline

namespace Tables

variable {tables before middle after : Tables}

/-! ## Tables that grow -/

/-- The tables after hold everything that the tables before hold, some variables perhaps out of
use. -/
structure Evolves (before after : Tables) : Prop where
  stage : after.stage = before.stage
  types : ∀ {index : Nat} {type : Ty}, before.types[index]? = some type →
    after.types[index]? = some type
  vars : ∀ {index : Nat} {entry : Variable}, before.vars[index]? = some entry →
    ∃ gone, after.vars[index]? = some (entry.retire gone)
  functions : ∀ {index : Nat} {function : Function},
    before.functions[index]? = some function → after.functions[index]? = some function
  envs : ∀ {kind : ImageKind} {id : TypeId}, before.textureEnvs.lookup kind = some id →
    after.textureEnvs.lookup kind = some id
  newEnvs : ∀ {kind : ImageKind} {id : TypeId}, (kind, id) ∈ after.textureEnvs →
    (kind, id) ∈ before.textureEnvs ∨ after.IsEnv kind id

/-- Registering types only adds to the tables. -/
theorem Registers.evolves (registers : before.Registers after) : before.Evolves after where
  stage := registers.stage
  types := registers.types
  vars known := ⟨false, registers.vars known⟩
  functions := registers.functions
  envs := registers.envs
  newEnvs := registers.newEnvs

/-- Adding variables and functions only adds to the tables. -/
theorem Adds.evolves (adds : before.Adds after) : before.Evolves after where
  stage := adds.stage
  types := adds.types
  vars known := ⟨false, adds.vars known⟩
  functions := adds.functions
  envs found := adds.sameEnvs ▸ found
  newEnvs member := .inl (adds.sameEnvs ▸ member)

/-- Tables that stay as they are evolve. -/
theorem Evolves.refl (tables : Tables) : tables.Evolves tables := (Registers.refl tables).evolves

/-- A texture environment stays one while the tables evolve. -/
theorem Evolves.isEnv (evolves : before.Evolves after) {kind : ImageKind} {id : TypeId}
    (env : before.IsEnv kind id) : after.IsEnv kind id := env.mono evolves.types

/-- Tables that evolve in two steps evolve. -/
theorem Evolves.trans (first : before.Evolves middle) (second : middle.Evolves after) :
    before.Evolves after where
  stage := second.stage.trans first.stage
  types known := second.types (first.types known)
  vars known := by
    obtain ⟨gone, inMiddle⟩ := first.vars known
    obtain ⟨also, there⟩ := second.vars inMiddle
    exact ⟨gone || also, by rw [there, Variable.retire_retire]⟩
  functions known := second.functions (first.functions known)
  envs found := second.envs (first.envs found)
  newEnvs member := by
    rcases second.newEnvs member with inMiddle | isEnv
    · exact (first.newEnvs inMiddle).imp_right second.isEnv
    · exact .inr isEnv

/-- No type is lost while the tables evolve. -/
theorem Evolves.size_types (evolves : before.Evolves after) :
    before.types.size ≤ after.types.size := by
  by_contra smaller
  have there := evolves.types (Array.getElem?_eq_getElem (Nat.not_le.mp smaller))
  simp at there

/-- No variable is lost while the tables evolve; one out of use keeps its place. -/
theorem Evolves.size_vars (evolves : before.Evolves after) :
    before.vars.size ≤ after.vars.size := by
  by_contra smaller
  obtain ⟨gone, there⟩ := evolves.vars (Array.getElem?_eq_getElem (Nat.not_le.mp smaller))
  simp at there

/-- No function is lost while the tables evolve. -/
theorem Evolves.size_functions (evolves : before.Evolves after) :
    before.functions.size ≤ after.functions.size := by
  by_contra smaller
  have there := evolves.functions (Array.getElem?_eq_getElem (Nat.not_le.mp smaller))
  simp at there

/-- Putting variables out of use changes nothing else. -/
theorem retire_evolves (gone : VariableId → Bool) : tables.Evolves (tables.retire gone) where
  stage := rfl
  types known := known
  vars known := ⟨_, by rw [getElem?_retire, known, Option.map_some]⟩
  functions known := known
  envs found := found
  newEnvs member := .inl member

/-- What takes the place of a sampler: its texture environment, in an array of the same size if the
sampler is an array of them. -/
inductive EnvFor (tables : Tables) : TypeId → TypeId → Prop where
  | single {type env : TypeId} {kind : ImageKind}
      (sampler : tables.types[type.index]? = some (.image kind))
      (registered : tables.textureEnvs.lookup kind = some env) : EnvFor tables type env
  | array {type element env array : TypeId} {kind : ImageKind} {size : Nat}
      (arrayed : tables.types[type.index]? = some (.array element size))
      (sampler : tables.types[element.index]? = some (.image kind))
      (registered : tables.textureEnvs.lookup kind = some env)
      (made : tables.types[array.index]? = some (.array env size)) : EnvFor tables type array

/-- What takes the place of a sampler still does in evolved tables. -/
theorem EnvFor.evolves {type env : TypeId} (envFor : before.EnvFor type env)
    (evolves : before.Evolves after) : after.EnvFor type env := by
  cases envFor with
  | single sampler registered => exact .single (evolves.types sampler) (evolves.envs registered)
  | array arrayed sampler registered made =>
    exact .array (evolves.types arrayed) (evolves.types sampler) (evolves.envs registered)
      (evolves.types made)

/-- Asking for the environment of a sampler makes nothing but types, and gives what takes the place
of the sampler. -/
theorem samplerEnv_makes {type env : TypeId}
    (made : tables.samplerEnv type = .ok (env, after)) :
    tables.MakesTypes after ∧ after.EnvFor type env := by
  obtain ⟨extents, kind, short, base, shape, baseKnown⟩ := samplerEnv_inv made
  have inside := index_lt_of_getElem? baseKnown
  have deep : extents.length ≤ tables.types.size := by omega
  have baseOk := shape.baseOf_eq baseKnown deep
  rw [shape.shapeOf_eq deep] at baseOk
  simp only [samplerEnv, shape.shapeOf_eq deep, baseOk, Outcome.ok_bind, Outcome.pure_eq_ok] at made
  simp only [Outcome.bind_eq_ok_iff, Except.ok.injEq] at made
  obtain ⟨-, -, made⟩ := made
  obtain ⟨toEnv, registered⟩ := @textureEnv_makes tables kind
  generalize tables.textureEnv kind = found at toEnv registered made
  have toAfter := @arrayOver_makes found.2 extents found.1
  rw [made] at toAfter
  have extended := (toEnv.trans toAfter).registers
  refine ⟨toEnv.trans toAfter, ?_⟩
  cases shape with
  | base known plain =>
    obtain ⟨rfl, rfl⟩ := Prod.mk.inj made
    exact .single (toEnv.registers.types baseKnown) registered
  | @array _ element _ size extents known inner =>
    obtain rfl : extents = [] := List.eq_nil_of_length_eq_zero (by simpa using short)
    have arrayKnown := @intern_known found.2 (.array found.1 size)
    simp only [arrayOver] at made
    rw [made] at arrayKnown
    cases inner with
    | base =>
      exact .array (extended.types known) (extended.types baseKnown)
        (toAfter.registers.envs registered) arrayKnown

end Tables

/-! ## Gathering -/

namespace Tables

variable {tables before after : Tables} {invariance : Invariance} {category : Category}

/-- The field that takes the place of a variable. Only the type of a sampler changes, and with it
what says nothing about the new type. -/
def Represents (category : Category) (tables : Tables) (entry : Variable) (field : Field) : Prop :=
  if category = .textures then
    ∃ env, tables.EnvFor entry.type env ∧
      field = ⟨entry.name, env, .notApplicable, entry.decorations, none⟩
  else
    field = ⟨entry.name, entry.type, entry.precision, entry.decorations, entry.builtIn⟩

/-- A field that takes the place of a variable still does in evolved tables. -/
theorem Represents.evolves {entry : Variable} {field : Field}
    (represents : Represents category before entry field) (evolves : before.Evolves after) :
    Represents category after entry field := by
  unfold Represents at represents ⊢
  split
  case isTrue textures =>
    rw [if_pos textures] at represents
    obtain ⟨env, envFor, same⟩ := represents
    exact ⟨env, envFor.evolves evolves, same⟩
  case isFalse other => rwa [if_neg other] at represents

/-- Making the field of a variable makes nothing but types, and the field takes the place of the
variable. -/
theorem fieldFor_makes {id : VariableId} {field : Field}
    (made : tables.fieldFor invariance category id = .ok (field, after)) :
    tables.MakesTypes after ∧
      ∃ entry, tables.vars[id.index]? = some entry ∧ Represents category after entry field := by
  simp only [fieldFor, Outcome.bind_eq_ok_iff, variableAt_eq_ok_iff] at made
  obtain ⟨entry, known, made⟩ := made
  split at made
  case isTrue textures =>
    simp only [Outcome.bind_eq_ok_iff, Outcome.pure_eq_ok, Except.ok.injEq, Prod.mk.injEq] at made
    obtain ⟨-, -, ⟨env, grown⟩, envOk, rfl, rfl⟩ := made
    obtain ⟨makes, envFor⟩ := samplerEnv_makes envOk
    refine ⟨makes, entry, known, ?_⟩
    rw [Represents, if_pos textures]
    exact ⟨env, envFor, rfl⟩
  case isFalse other =>
    simp only [Outcome.pure_eq_ok, Except.ok.injEq, Prod.mk.injEq] at made
    obtain ⟨rfl, rfl⟩ := made
    exact ⟨.nothing, entry, known, by rw [Represents, if_neg other]⟩

/-- Making the fields of several variables makes nothing but types, and each field takes the place
of the variable at its position. -/
theorem fieldsFor_makes {members : List VariableId} {fields : List Field}
    (made : tables.fieldsFor invariance category members = .ok (fields, after)) :
    tables.MakesTypes after ∧ List.Forall₂ (fun id field => ∃ entry,
      tables.vars[id.index]? = some entry ∧ Represents category after entry field) members fields := by
  induction members generalizing tables fields with
  | nil =>
    simp only [fieldsFor, Except.ok.injEq, Prod.mk.injEq] at made
    obtain ⟨rfl, rfl⟩ := made
    exact ⟨.nothing, .nil⟩
  | cons id members inductionHypothesis =>
    simp only [fieldsFor, Outcome.bind_eq_ok_iff, Outcome.pure_eq_ok, Except.ok.injEq,
      Prod.mk.injEq] at made
    obtain ⟨⟨field, middle⟩, fieldOk, ⟨others, last⟩, othersOk, rfl, rfl⟩ := made
    obtain ⟨toMiddle, entry, known, represents⟩ := fieldFor_makes fieldOk
    obtain ⟨toAfter, each⟩ := inductionHypothesis othersOk
    rw [toMiddle.registers.sameVars] at each
    exact ⟨toMiddle.trans toAfter,
      .cons ⟨entry, known, represents.evolves toAfter.registers.evolves⟩ each⟩

end Tables

namespace GatherRun

variable {shader result : Shader} {category : Category} {supplied : Option VariableId}
  {gathering : Gathering}

/-- A struct that is made for a category has a field for every variable. -/
theorem middle_fields (run : GatherRun shader category none gathering result) :
    shader.program.tables.MakesTypes run.middle ∧
      ∃ fields, run.middle.types[gathering.internal.index]? =
          some (.struct (category.structName .internal) fields) ∧
        List.Forall₂ (fun id field => ∃ entry,
          shader.program.tables.vars[id.index]? = some entry ∧
            Tables.Represents category run.middle entry field) gathering.members fields := by
  have made := run.internalOk
  simp only [Gathering.internalStruct, Gathering.createInternal, Tables.createStruct,
    Outcome.bind_eq_ok_iff, Outcome.pure_eq_ok, Except.ok.injEq, Prod.mk.injEq] at made
  obtain ⟨_, ⟨⟨fields, grown⟩, fieldsOk, _, ⟨-, -, rfl⟩, rfl⟩, struct, -, same, -⟩ := made
  obtain ⟨toGrown, each⟩ := Tables.fieldsFor_makes fieldsOk
  have toMiddle := @Tables.addStruct_registers grown (category.structName .internal) fields
  rw [← same, ← struct]
  refine ⟨toGrown.struct _ _, fields, Tables.addStruct_types _ _, each.imp fun id field => ?_⟩
  rintro ⟨entry, known, represents⟩
  exact ⟨entry, known, represents.evolves toMiddle.evolves⟩

/-- Making the struct of a category makes nothing but types. -/
theorem middle_makes (run : GatherRun shader category supplied gathering result) :
    shader.program.tables.MakesTypes run.middle := by
  cases supplied with
  | none => exact run.middle_fields.1
  | some id =>
    have made := run.internalOk
    simp only [Gathering.internalStruct, Outcome.bind_eq_ok_iff, Outcome.pure_eq_ok,
      Except.ok.injEq, Prod.mk.injEq] at made
    obtain ⟨_, -, _, -, -, -, -, -, same, -⟩ := made
    exact same ▸ .nothing

/-- The external layout makes types, and then the conversion function is added. -/
theorem result_adds (run : GatherRun shader category supplied gathering result) :
    ∃ made, run.middle.MakesTypes made ∧ made.Adds result.program.tables := by
  rcases run.bridged with ⟨-, same⟩ | ⟨_, _, _, _, grown, -, -, -, placesOk, -, adds⟩
  · exact ⟨run.middle, .nothing, same ▸ .refl _⟩
  · exact ⟨_, (Layout.placeFields_makes placesOk).struct _ _, adds⟩

/-- Once the struct of a category is made, the tables evolve. -/
theorem middle_evolves (run : GatherRun shader category supplied gathering result) :
    run.middle.Evolves result.program.tables := by
  obtain ⟨made, makes, adds⟩ := run.result_adds
  exact makes.registers.evolves.trans adds.evolves

/-- Gathering only adds to the tables. -/
theorem evolves (run : GatherRun shader category supplied gathering result) :
    shader.program.tables.Evolves result.program.tables :=
  run.middle_makes.registers.evolves.trans run.middle_evolves

/-- Every gathered variable has its field in the new struct. -/
theorem represented (run : GatherRun shader category supplied gathering result)
    (unsupplied : supplied = none) :
    ∃ fields, result.program.tables.types[gathering.internal.index]? =
        some (.struct (category.structName .internal) fields) ∧
      List.Forall₂ (fun id field => ∃ entry,
        shader.program.tables.vars[id.index]? = some entry ∧
          Tables.Represents category result.program.tables entry field)
        gathering.members fields := by
  subst unsupplied
  obtain ⟨-, fields, known, each⟩ := run.middle_fields
  refine ⟨fields, run.middle_evolves.types known, each.imp fun id field => ?_⟩
  rintro ⟨entry, entryKnown, represents⟩
  exact ⟨entry, entryKnown, represents.evolves run.middle_evolves⟩

end GatherRun

/-! ## Threading -/

namespace Tables

variable {tables before middle after : Tables} {returned : TypeId → Prop}

/-- Variables of known types were added, and functions that return what one before them returned or
one of the given types. -/
structure Equips (returned : TypeId → Prop) (before after : Tables) : Prop
    extends Adds before after where
  variableTypes : ∀ entry ∈ after.vars,
    entry ∈ before.vars ∨ entry.type.index < after.types.size
  returnTypes : ∀ function ∈ after.functions, returned function.returnType ∨
    ∃ source ∈ before.functions, source.returnType = function.returnType

/-- Tables that stay as they are were given nothing of an unknown type. -/
theorem Equips.refl (tables : Tables) : tables.Equips returned tables where
  toAdds := .refl tables
  variableTypes _ member := .inl member
  returnTypes function member := .inr ⟨function, member, rfl⟩

/-- What is added in two steps has known types if it has in each of them. -/
theorem Equips.trans (first : before.Equips returned middle)
    (second : middle.Equips returned after) : before.Equips returned after where
  toAdds := first.toAdds.trans second.toAdds
  variableTypes entry member := by
    rcases second.variableTypes entry member with inMiddle | known
    · exact (first.variableTypes entry inMiddle).imp_right
        (Nat.lt_of_lt_of_le · second.size_types)
    · exact .inr known
  returnTypes function member := by
    rcases second.returnTypes function member with given | ⟨source, inMiddle, same⟩
    · exact .inl given
    · rw [← same]
      exact first.returnTypes source inMiddle

/-- Variables of known types may be added. -/
theorem addVariables_equips {entries : List Variable}
    (known : ∀ entry ∈ entries, entry.type.index < tables.types.size) :
    tables.Equips returned (tables.addVariables entries) where
  toAdds := addVariables_adds entries
  variableTypes entry member := by
    simp only [addVariables, Array.mem_append, List.mem_toArray] at member
    exact member.imp_right (known entry)
  returnTypes function member := .inr ⟨function, member, rfl⟩

/-- A variable that was added has a known type. -/
theorem declare_known {entry : Variable} {id : VariableId}
    (made : tables.declare entry = .ok (id, after)) : entry.type.index < tables.types.size := by
  simp only [declare, Outcome.bind_eq_ok_iff, typeAt_eq_ok_iff] at made
  obtain ⟨type, known, -⟩ := made
  exact index_lt_of_getElem? known

/-- A variable that is declared has a known type. -/
theorem declare_equips {entry : Variable} {id : VariableId}
    (made : tables.declare entry = .ok (id, after)) : tables.Equips returned after := by
  have known := declare_known made
  obtain ⟨-, rfl⟩ := declare_inv made
  exact addVariables_equips (by simpa using known)

/-- A parameter that was created is the one new variable, and it is taken by value. -/
theorem createParam_inv {name : Name} {type : TypeId} {precision : Precision} {param : Param}
    (made : tables.createParam name type precision = .ok (param, after)) :
    param = ⟨⟨tables.vars.size⟩, .input⟩ ∧
      after = tables.addVariables [{ name, type, precision, scope := .parameter }] := by
  simp only [createParam, Outcome.bind_eq_ok_iff, Outcome.pure_eq_ok, Except.ok.injEq,
    Prod.mk.injEq] at made
  obtain ⟨⟨id, grown⟩, declared, rfl, rfl⟩ := made
  obtain ⟨rfl, rfl⟩ := declare_inv declared
  exact ⟨rfl, rfl⟩

/-- A parameter is only created of a known type. -/
theorem createParam_known {name : Name} {type : TypeId} {precision : Precision} {param : Param}
    (made : tables.createParam name type precision = .ok (param, after)) :
    type.index < tables.types.size := by
  simp only [createParam, Outcome.bind_eq_ok_iff] at made
  obtain ⟨⟨id, grown⟩, declared, -⟩ := made
  exact declare_known declared

/-- A parameter that is created is a variable of a known type. -/
theorem createParam_equips {name : Name} {type : TypeId} {precision : Precision} {param : Param}
    (made : tables.createParam name type precision = .ok (param, after)) :
    tables.Equips returned after := by
  have known := createParam_known made
  obtain ⟨-, rfl⟩ := createParam_inv made
  exact addVariables_equips (by simpa using known)

/-- A parameter that is created and marked is a new variable. -/
theorem markParam_equips {name : Name} {type : TypeId} {precision : Precision} {param : Param}
    {space : AddressSpace} {marked : Tables}
    (made : tables.createParam name type precision = .ok (param, after))
    (marks : after.markReference param.variableId space = .ok marked) :
    tables.Equips returned marked := by
  have known := createParam_known made
  obtain ⟨rfl, rfl⟩ := createParam_inv made
  rw [markReference_last, Except.ok.injEq] at marks
  exact marks ▸ addVariables_equips (by simpa using known)

/-- An instance of a struct is a variable of a known type. -/
theorem createInstance_equips {name : Name} {type : TypeId} {scope : Scope} {id : VariableId}
    (made : tables.createInstance type name scope = .ok (id, after)) :
    tables.Equips returned after := by
  simp only [createInstance, Outcome.bind_eq_ok_iff] at made
  obtain ⟨_, -, -, -, declared⟩ := made
  exact declare_equips declared

/-- A changed copy of a function is added to the tables. -/
theorem cloneFunction_adds {id copy : FunctionId} {change : Function → Function}
    (made : tables.cloneFunction id change = .ok (copy, after)) : tables.Adds after := by
  simp only [cloneFunction, Outcome.bind_eq_ok_iff, Outcome.pure_eq_ok, Except.ok.injEq] at made
  obtain ⟨function, -, made⟩ := made
  have adds := @addFunction_adds tables (change function)
  rwa [made] at adds

/-- A copy whose return type is kept, or is one of the given ones. -/
theorem cloneFunction_equips {id copy : FunctionId} {change : Function → Function}
    (made : tables.cloneFunction id change = .ok (copy, after))
    (kept : ∀ function, returned (change function).returnType ∨
      (change function).returnType = function.returnType) : tables.Equips returned after where
  toAdds := cloneFunction_adds made
  variableTypes entry member := by
    simp only [cloneFunction, Outcome.bind_eq_ok_iff, Outcome.pure_eq_ok, Except.ok.injEq] at made
    obtain ⟨function, -, rfl, rfl⟩ := made
    exact .inl member
  returnTypes copied member := by
    simp only [cloneFunction, Outcome.bind_eq_ok_iff, Outcome.pure_eq_ok, Except.ok.injEq,
      functionAt_eq_ok_iff] at made
    obtain ⟨function, known, rfl, rfl⟩ := made
    rcases Array.mem_push.mp member with old | rfl
    · exact .inr ⟨copied, old, rfl⟩
    · exact (kept function).imp_right fun same =>
        ⟨function, Array.mem_of_getElem? known, same.symm⟩

end Tables

/-- The local variables that hold the instances have known types. -/
theorem Plan.createLocals_equips {gathering : Gathering} {tables after : Tables}
    {locals : Scoped VariableId} {returned : TypeId → Prop}
    (made : createLocals gathering tables = .ok (locals, after)) :
    tables.Equips returned after := by
  simp only [createLocals] at made
  split at made
  case h_2 =>
    simp only [Outcome.pure_eq_ok, Except.ok.injEq, Prod.mk.injEq] at made
    exact made.2 ▸ .refl tables
  case h_5 =>
    simp only [Outcome.bind_eq_ok_iff, Outcome.pure_eq_ok, Except.ok.injEq, Prod.mk.injEq] at made
    obtain ⟨_, outside, _, inside, -, rfl⟩ := made
    exact (Tables.createInstance_equips outside).trans (Tables.createInstance_equips inside)
  all_goals
    simp only [Outcome.bind_eq_ok_iff, Outcome.pure_eq_ok, Except.ok.injEq, Prod.mk.injEq] at made
    obtain ⟨_, inside, -, rfl⟩ := made
    exact Tables.createInstance_equips inside

namespace Threading

variable {plan : Plan} {state next : Threading} {returned : TypeId → Prop}

/-- The parameters for the fields of a struct have known types. -/
theorem createFieldParams_equips {tables after : Tables} {fields : List Field} {params : List Param}
    (made : createFieldParams tables fields = .ok (params, after)) :
    tables.Equips returned after := by
  induction fields generalizing tables params with
  | nil =>
    simp only [createFieldParams, Except.ok.injEq, Prod.mk.injEq] at made
    exact made.2 ▸ .refl tables
  | cons field fields inductionHypothesis =>
    simp only [createFieldParams, Outcome.bind_eq_ok_iff, Outcome.pure_eq_ok, Except.ok.injEq,
      Prod.mk.injEq] at made
    obtain ⟨⟨id, middle⟩, declared, ⟨others, last⟩, othersOk, -, rfl⟩ := made
    exact (Tables.declare_equips declared).trans (inductionHypothesis othersOk)

/-- Variables and functions were added, and the names that old variables came from are as they
were. -/
structure Continues (returned : TypeId → Prop) (before after : Threading) : Prop where
  equips : before.tables.Equips returned after.tables
  names : ∀ {id : VariableId}, id.index < before.tables.vars.size →
    after.reflection.name? id = before.reflection.name? id

/-- A state that stays as it is continues itself. -/
theorem Continues.refl (state : Threading) : state.Continues returned state :=
  ⟨.refl _, fun _ => rfl⟩

/-- A state that is continued twice is continued. -/
theorem Continues.trans {before middle after : Threading}
    (first : before.Continues returned middle) (second : middle.Continues returned after) :
    before.Continues returned after where
  equips := first.equips.trans second.equips
  names old :=
    (second.names (Nat.lt_of_lt_of_le old first.equips.size_vars)).trans (first.names old)

/-- Where nothing is recorded, only the tables matter. -/
theorem continues_of_equips (equips : state.tables.Equips returned next.tables)
    (same : next.reflection = state.reflection) : state.Continues returned next :=
  ⟨equips, fun _ => by rw [same]⟩

/-- The parameter for one half of a slot is new, so no old variable gets another name. -/
theorem createHalf_continues {slot : TextureSlot} {half : Field} {param : Param}
    (made : state.createHalf slot half = .ok (param, next)) : state.Continues returned next := by
  simp only [createHalf, Outcome.bind_eq_ok_iff] at made
  obtain ⟨type, -, made⟩ := made
  split at made
  · simp at made
  · simp only [Outcome.bind_eq_ok_iff, Outcome.pure_eq_ok, Except.ok.injEq, Prod.mk.injEq] at made
    obtain ⟨⟨other, after⟩, created, -, rfl⟩ := made
    refine ⟨Tables.createParam_equips created, fun {id} old => Reflection.name?_record_of_ne ?_⟩
    obtain ⟨rfl, -⟩ := Tables.createParam_inv created
    rintro rfl
    exact Nat.lt_irrefl _ old

/-- Nor does one when the parameters for several halves are created. -/
theorem createHalves_continues {slot : TextureSlot} {halves : List Field} {params : List Param}
    (made : state.createHalves slot halves = .ok (params, next)) :
    state.Continues returned next := by
  induction halves generalizing state params with
  | nil =>
    simp only [createHalves, Except.ok.injEq, Prod.mk.injEq] at made
    exact made.2 ▸ .refl _
  | cons half halves inductionHypothesis =>
    simp only [createHalves, Outcome.bind_eq_ok_iff, Outcome.pure_eq_ok, Except.ok.injEq,
      Prod.mk.injEq] at made
    obtain ⟨⟨param, middle⟩, halfOk, ⟨others, last⟩, othersOk, -, rfl⟩ := made
    exact (createHalf_continues halfOk).trans (inductionHypothesis othersOk)

/-- Nor does one when those of all slots are. -/
theorem createSlots_continues {slots : List TextureSlot} {params : List Param}
    (made : state.createSlots slots = .ok (params, next)) : state.Continues returned next := by
  induction slots generalizing state params with
  | nil =>
    simp only [createSlots, Except.ok.injEq, Prod.mk.injEq] at made
    exact made.2 ▸ .refl _
  | cons slot slots inductionHypothesis =>
    simp only [createSlots, Outcome.bind_eq_ok_iff, Outcome.pure_eq_ok, Except.ok.injEq,
      Prod.mk.injEq] at made
    obtain ⟨_, -, -, -, ⟨first, middle⟩, firstOk, ⟨others, last⟩, othersOk, -, rfl⟩ := made
    exact (createHalves_continues firstOk).trans (inductionHypothesis othersOk)

/-- The copy of a helper returns what the helper does. -/
theorem copyHelper_continues {id copy : FunctionId}
    (made : state.copyHelper plan id = .ok (copy, next)) : state.Continues returned next := by
  simp only [copyHelper, Outcome.bind_eq_ok_iff, Outcome.pure_eq_ok, Except.ok.injEq,
    Prod.mk.injEq] at made
  obtain ⟨⟨param, one⟩, created, two, marks, ⟨other, three⟩, cloned, -, rfl⟩ := made
  exact continues_of_equips ((Tables.markParam_equips created marks).trans
    (Tables.cloneFunction_equips cloned fun _ => .inr rfl)) rfl

/-- The parameter that holds the struct has a known type. -/
theorem createStructParam_equips {tables after : Tables} {param : Param}
    (made : createStructParam plan tables = .ok (param, after)) :
    tables.Equips returned after := by
  simp only [createStructParam, Outcome.bind_eq_ok_iff] at made
  obtain ⟨⟨other, middle⟩, created, made⟩ := made
  split at made
  · simp only [Outcome.pure_eq_ok, Except.ok.injEq, Prod.mk.injEq] at made
    obtain ⟨-, rfl⟩ := made
    exact Tables.createParam_equips created
  · simp only [Outcome.bind_eq_ok_iff, Outcome.pure_eq_ok, Except.ok.injEq, Prod.mk.injEq] at made
    obtain ⟨marked, marks, -, rfl⟩ := made
    exact Tables.markParam_equips created marks

/-- The entry point may be made to return the struct that crosses the boundary. -/
theorem enterMain_continues {id copy : FunctionId}
    (made : state.enterMain plan id = .ok (copy, next)) :
    state.Continues (· = plan.external) next := by
  unfold enterMain at made
  split at made
  case h_1 =>
    simp only [Outcome.bind_eq_ok_iff] at made
    obtain ⟨function, -, made⟩ := made
    split at made
    · simp only [Outcome.bind_eq_ok_iff, Outcome.pure_eq_ok, Except.ok.injEq,
        Prod.mk.injEq] at made
      obtain ⟨_, cloned, -, rfl⟩ := made
      exact continues_of_equips (Tables.cloneFunction_equips cloned fun _ => .inl rfl) rfl
    · simp at made
  case h_2 =>
    simp only [Outcome.bind_eq_ok_iff, Outcome.pure_eq_ok, Except.ok.injEq, Prod.mk.injEq] at made
    obtain ⟨_, -, _, params, _, cloned, -, rfl⟩ := made
    exact continues_of_equips ((createFieldParams_equips params).trans
      (Tables.cloneFunction_equips cloned fun _ => .inr rfl)) rfl
  case h_3 =>
    simp only [Outcome.bind_eq_ok_iff, Outcome.pure_eq_ok, Except.ok.injEq, Prod.mk.injEq] at made
    obtain ⟨_, -, _, params, _, cloned, -, rfl⟩ := made
    exact (createSlots_continues params).trans
      (continues_of_equips (Tables.cloneFunction_equips cloned fun _ => .inr rfl) rfl)
  case h_4 =>
    simp only [createIndexParam, Outcome.bind_eq_ok_iff, Outcome.pure_eq_ok, Except.ok.injEq,
      Prod.mk.injEq] at made
    obtain ⟨_, ⟨_, created, _, marks, rfl⟩, _, cloned, -, rfl⟩ := made
    exact continues_of_equips ((Tables.markParam_equips created marks).trans
      (Tables.cloneFunction_equips cloned fun _ => .inr rfl)) rfl
  case h_5 =>
    simp only [Outcome.bind_eq_ok_iff, Outcome.pure_eq_ok, Except.ok.injEq, Prod.mk.injEq] at made
    obtain ⟨_, -, -, rfl⟩ := made
    exact .refl _
  case h_6 =>
    simp only [Outcome.bind_eq_ok_iff, Outcome.pure_eq_ok, Except.ok.injEq, Prod.mk.injEq] at made
    obtain ⟨_, created, _, cloned, -, rfl⟩ := made
    exact continues_of_equips ((createStructParam_equips created).trans
      (Tables.cloneFunction_equips cloned fun _ => .inr rfl)) rfl

/-- Asking for a replacement only adds variables and functions, and names for new variables. -/
theorem update_continues {id copy : FunctionId} (made : state.update plan id = .ok (copy, next)) :
    state.Continues (· = plan.external) next := by
  simp only [update, Outcome.bind_eq_ok_iff] at made
  obtain ⟨-, -, made⟩ := made
  split at made
  · simp only [Outcome.pure_eq_ok, Except.ok.injEq, Prod.mk.injEq] at made
    exact made.2 ▸ .refl _
  · simp only [Outcome.bind_eq_ok_iff] at made
    obtain ⟨function, -, made⟩ := made
    split at made
    · simp only [Outcome.bind_eq_ok_iff, Outcome.pure_eq_ok, Except.ok.injEq,
        Prod.mk.injEq] at made
      obtain ⟨⟨other, middle⟩, enters, -, rfl⟩ := made
      exact (enterMain_continues enters).trans (continues_of_equips (.refl _) rfl)
    · simp only [Outcome.bind_eq_ok_iff, Outcome.pure_eq_ok, Except.ok.injEq,
        Prod.mk.injEq] at made
      obtain ⟨⟨other, middle⟩, copies, -, rfl⟩ := made
      exact (copyHelper_continues copies).trans (continues_of_equips (.refl _) rfl)

/-- So does asking for any number of them. -/
theorem Updates.continues (updates : Updates plan state next) :
    state.Continues (· = plan.external) next := by
  induction updates with
  | refl => exact .refl state
  | tail _ step inductionHypothesis =>
    obtain ⟨id, copy, made⟩ := step
    exact inductionHypothesis.trans (update_continues made)

end Threading

/-- Reading the instance declares the same variable, if any. -/
theorem Plan.readInstance_declared {gathering : Gathering} {tables : Tables}
    {locals : Scoped VariableId} {global read : Global}
    (made : readInstance gathering tables locals global = .ok read) :
    read.declared? = global.declared? := by
  cases global with
  | struct | var | prototype =>
    simp only [readInstance, Except.ok.injEq] at made
    rw [made]
  | definition function body =>
    simp only [readInstance] at made
    split at made
    · simp only [Outcome.bind_eq_ok_iff, Outcome.pure_eq_ok, Except.ok.injEq] at made
      obtain ⟨_, -, rfl⟩ := made
      rfl
    · simp only [Except.ok.injEq] at made
      rw [made]

/-- Threading records no name for a variable that was there. -/
theorem Shader.thread_names {shader result : Shader} {gathering : Gathering}
    {dependents : List FunctionId} (threads : shader.thread gathering dependents = .ok result)
    {id : VariableId} (old : id.index < shader.program.tables.vars.size) :
    result.reflection.name? id = shader.reflection.name? id := by
  simp only [thread, Outcome.bind_eq_ok_iff, Outcome.pure_eq_ok, Except.ok.injEq] at threads
  obtain ⟨⟨locals, base⟩, localsOk, initials, -, ⟨threaded, state⟩, threadsOk, globals, -,
    rfl⟩ := threads
  have continues := (Threading.threadGlobals_updates threadsOk).1.continues
  have locals := @Plan.createLocals_equips _ _ _ _ (· = gathering.external) localsOk
  exact continues.names (Nat.lt_of_lt_of_le old locals.size_vars)

/-- Threading adds variables of known types and functions. The only new return type is that of the
struct that crosses the boundary. -/
theorem Shader.thread_equips {shader result : Shader} {gathering : Gathering}
    {dependents : List FunctionId} (threads : shader.thread gathering dependents = .ok result) :
    shader.program.tables.Equips (· = gathering.external) result.program.tables := by
  simp only [thread, Outcome.bind_eq_ok_iff, Outcome.pure_eq_ok, Except.ok.injEq] at threads
  obtain ⟨⟨locals, base⟩, localsOk, initials, -, ⟨threaded, state⟩, threadsOk, globals, -,
    rfl⟩ := threads
  exact (Plan.createLocals_equips localsOk).trans
    (Threading.threadGlobals_updates threadsOk).1.continues.equips

/-- Threading adds variables and functions to the tables and declares no global variable. -/
theorem Shader.thread_adds {shader result : Shader} {gathering : Gathering}
    {dependents : List FunctionId} (threads : shader.thread gathering dependents = .ok result) :
    shader.program.tables.Adds result.program.tables ∧
      result.program.globalVariables = shader.program.globalVariables := by
  refine ⟨(thread_equips threads).toAdds, ?_⟩
  simp only [thread, Outcome.bind_eq_ok_iff, Outcome.pure_eq_ok, Except.ok.injEq] at threads
  obtain ⟨⟨locals, base⟩, localsOk, initials, -, ⟨threaded, state⟩, threadsOk, globals, reads,
    rfl⟩ := threads
  have sameDeclared := (Threading.threadGlobals_updates threadsOk).2
  rw [Program.globalVariables, Program.globalVariables, ← sameDeclared]
  have each := Outcome.mapM_eq_ok_iff.mp reads
  dsimp only at each
  clear reads threadsOk sameDeclared
  induction each with
  | nil => rfl
  | cons head _ inductionHypothesis =>
    rw [List.filterMap_cons, List.filterMap_cons, Plan.readInstance_declared head,
      inductionHypothesis]

end ShaderPipeline
