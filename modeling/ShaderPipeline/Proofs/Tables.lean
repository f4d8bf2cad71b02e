import Mathlib.Data.List.Basic
import ShaderPipeline.Proofs.Outcome
import ShaderPipeline.Shape

/-!
# How the tables grow

Tables only grow, so what is known about an identity stays known. `Extends` is
that order; `Adds` is the part of it that creates variables and functions and no
types. Every operation that creates an entry is described by one equation: what
it returns and how the tables look afterwards.
-/

namespace ShaderPipeline

namespace Tables

variable {tables before middle after : Tables}

/-! ## Look-ups -/

@[simp] theorem typeAt_eq_ok_iff {id : TypeId} {type : Ty} :
    tables.typeAt id = .ok type ↔ tables.types[id.index]? = some type := by
  simp [typeAt]

@[simp] theorem variableAt_eq_ok_iff {id : VariableId} {entry : Variable} :
    tables.variableAt id = .ok entry ↔ tables.vars[id.index]? = some entry := by
  simp [variableAt]

@[simp] theorem functionAt_eq_ok_iff {id : FunctionId} {function : Function} :
    tables.functionAt id = .ok function ↔ tables.functions[id.index]? = some function := by
  simp [functionAt]

/-- The fields of an identity are there exactly if it names a struct with them. -/
theorem fieldsOf_eq_ok_iff {id : TypeId} {fields : List Field} :
    tables.fieldsOf id = .ok fields ↔ ∃ name, tables.types[id.index]? = some (.struct name fields) := by
  simp only [fieldsOf, Outcome.bind_eq_ok_iff, typeAt_eq_ok_iff]
  constructor
  · rintro ⟨type, known, fieldsOk⟩
    cases type <;> simp_all [Ty.fields?]
  · rintro ⟨name, known⟩
    exact ⟨_, known, rfl⟩

/-- The array structure of a type depends on the types only. -/
theorem shapeOf_congr (same : after.types = before.types) (id : TypeId) :
    after.shapeOf id = before.shapeOf id := by
  have within (depth : Nat) (id : TypeId) :
      after.shapeWithin depth id = before.shapeWithin depth id := by
    induction depth generalizing id with
    | zero => rfl
    | succ depth inductionHypothesis => simp only [shapeWithin, same, inductionHypothesis]
  simp only [shapeOf, same, within]

/-- What is looked up for a key depends on the types only. -/
theorem find?_congr (same : after.types = before.types) (key : TypeKey) :
    after.find? key = before.find? key := by
  rw [find?, find?, after.shared.lookup_eq, before.shared.lookup_eq, same]

/-- What is found under a key is the type of the key. -/
theorem find?_known {key : TypeKey} {id : TypeId} (found : tables.find? key = some id) :
    tables.types[id.index]? = some key.type := by
  rw [find?, SharedTypes.lookup_eq] at found
  obtain ⟨index, there, rfl⟩ := Option.map_eq_some_iff.mp found
  obtain ⟨inside, same, -⟩ := Array.findIdx?_eq_some_iff_getElem.mp there
  simpa [Array.getElem?_eq_getElem inside] using same

/-- A type that is known is found under its key. -/
theorem find?_isSome (key : TypeKey) {id : TypeId}
    (known : tables.types[id.index]? = some key.type) : (tables.find? key).isSome = true := by
  rw [find?, SharedTypes.lookup_eq, TypeKey.firstIn, Option.isSome_map, Array.findIdx?_isSome,
    Array.any_eq_true]
  obtain ⟨inside, same⟩ := Array.getElem?_eq_some_iff.mp known
  exact ⟨id.index, inside, by simp [same]⟩

/-! ## The order of growth -/

/-- Every entry of the tables before stands unchanged in the tables after. -/
structure Extends (before after : Tables) : Prop where
  stage : after.stage = before.stage
  types : ∀ {index : Nat} {type : Ty},
    before.types[index]? = some type → after.types[index]? = some type
  vars : ∀ {index : Nat} {entry : Variable},
    before.vars[index]? = some entry → after.vars[index]? = some entry
  functions : ∀ {index : Nat} {function : Function},
    before.functions[index]? = some function → after.functions[index]? = some function

/-- The tables after have more variables and functions, and the same types. -/
structure Adds (before after : Tables) : Prop extends Extends before after where
  sameTypes : after.types = before.types
  sameEnvs : after.textureEnvs = before.textureEnvs

/-- Tables that stay as they are hold what they held. -/
theorem Extends.refl (tables : Tables) : tables.Extends tables where
  stage := rfl
  types known := known
  vars known := known
  functions known := known

/-- What is held through two steps is held through both. -/
theorem Extends.trans (first : before.Extends middle) (second : middle.Extends after) :
    before.Extends after where
  stage := second.stage.trans first.stage
  types known := second.types (first.types known)
  vars known := second.vars (first.vars known)
  functions known := second.functions (first.functions known)

/-- Tables that stay as they are have nothing added. -/
theorem Adds.refl (tables : Tables) : tables.Adds tables where
  toExtends := .refl tables
  sameTypes := rfl
  sameEnvs := rfl

/-- What is added in two steps is added to the first tables. -/
theorem Adds.trans (first : before.Adds middle) (second : middle.Adds after) :
    before.Adds after where
  toExtends := first.toExtends.trans second.toExtends
  sameTypes := second.sameTypes.trans first.sameTypes
  sameEnvs := second.sameEnvs.trans first.sameEnvs

private theorem size_le_of_prefix {α : Type} {first second : Array α}
    (keeps : ∀ {index : Nat} {entry : α}, first[index]? = some entry → second[index]? = some entry) :
    first.size ≤ second.size := by
  by_contra shorter
  have inside : second.size < first.size := Nat.lt_of_not_le shorter
  have found := keeps (Array.getElem?_eq_getElem inside)
  simp at found

/-- Tables that grow lose no type. -/
theorem Extends.size_types (grown : before.Extends after) :
    before.types.size ≤ after.types.size := size_le_of_prefix grown.types

/-- Tables that grow lose no variable. -/
theorem Extends.size_vars (grown : before.Extends after) :
    before.vars.size ≤ after.vars.size := size_le_of_prefix grown.vars

/-- Tables that grow lose no function. -/
theorem Extends.size_functions (grown : before.Extends after) :
    before.functions.size ≤ after.functions.size := size_le_of_prefix grown.functions

private theorem getElem?_push_of_some {α : Type} {entries : Array α} {index : Nat} {entry last : α}
    (known : entries[index]? = some entry) : (entries.push last)[index]? = some entry := by
  have inside : index < entries.size := (Array.getElem?_eq_some_iff.mp known).1
  rw [Array.getElem?_push, if_neg (Nat.ne_of_lt inside), known]

/-! ## New entries -/

/-- Adding a struct keeps what the tables hold. -/
theorem addStruct_extends (name : Name) (fields : List Field) :
    tables.Extends (tables.addStruct name fields).2 where
  stage := rfl
  types := getElem?_push_of_some
  vars known := known
  functions known := known

/-- So does adding a shared type. -/
theorem addShared_extends {key : TypeKey} (unknown : tables.find? key = none) :
    tables.Extends (tables.addShared key unknown).2 where
  stage := rfl
  types := getElem?_push_of_some
  vars known := known
  functions known := known

/-- A type is known and in use. -/
def InUse (tables : Tables) (id : TypeId) : Prop :=
  ∃ type, tables.types[id.index]? = some type ∧ type.isEliminated = false

/-- The tables with more variables. -/
def addVariables (tables : Tables) (entries : List Variable) : Tables :=
  { tables with vars := tables.vars ++ entries.toArray }

/-- The parameters that new variables under the next identities make. -/
def nextParams (tables : Tables) (count : Nat) : List Param :=
  (List.range' tables.vars.size count).map fun index => ⟨⟨index⟩, .input⟩

/-- Adding variables keeps the types. -/
theorem addVariables_adds (entries : List Variable) : tables.Adds (tables.addVariables entries) where
  stage := rfl
  types known := known
  vars := by
    intro index entry known
    have inside : index < tables.vars.size := (Array.getElem?_eq_some_iff.mp known).1
    rw [addVariables, Array.getElem?_append_left inside, known]
  functions known := known
  sameTypes := rfl
  sameEnvs := rfl

/-- So does adding a function. -/
theorem addFunction_adds (function : Function) : tables.Adds (tables.addFunction function).2 where
  stage := rfl
  types known := known
  vars known := known
  functions := getElem?_push_of_some
  sameTypes := rfl
  sameEnvs := rfl

@[simp] theorem addVariables_nil : tables.addVariables [] = tables := by
  simp [addVariables]

@[simp] theorem addVariables_addVariables (first second : List Variable) :
    (tables.addVariables first).addVariables second = tables.addVariables (first ++ second) := by
  simp [addVariables, Array.append_assoc]

@[simp] theorem size_vars_addVariables (entries : List Variable) :
    (tables.addVariables entries).vars.size = tables.vars.size + entries.length := by
  simp [addVariables]

/-- The parameters for several new variables are the one for the first and those for the rest. -/
theorem nextParams_succ (entry : Variable) (count : Nat) :
    tables.nextParams (count + 1) =
      ⟨⟨tables.vars.size⟩, .input⟩ :: (tables.addVariables [entry]).nextParams count := by
  simp [nextParams, List.range'_succ]

/-- A variable of a type in use is declared at the end of the table. -/
theorem declare_eq (entry : Variable) (used : tables.InUse entry.type) :
    tables.declare entry = .ok (⟨tables.vars.size⟩, tables.addVariables [entry]) := by
  obtain ⟨type, known, alive⟩ := used
  have found : tables.typeAt entry.type = .ok type := by simpa using known
  simp [declare, found, alive, ensure, addVariables]

/-- So is a parameter, which is taken by value. -/
theorem createParam_eq (name : Name) {type : TypeId} (precision : Precision)
    (used : tables.InUse type) :
    tables.createParam name type precision = .ok (⟨⟨tables.vars.size⟩, .input⟩,
      tables.addVariables [{ name, type, precision, scope := .parameter }]) := by
  simp [createParam, declare_eq { name, type, precision, scope := .parameter } used]

/-- So is an instance of a struct. -/
theorem createInstance_eq {name : Name} {type : TypeId} {scope : Scope} {structName : Name}
    {fields : List Field} (known : tables.types[type.index]? = some (.struct structName fields)) :
    tables.createInstance type name scope =
      .ok (⟨tables.vars.size⟩, tables.addVariables [{ name, type, scope }]) := by
  have found : tables.typeAt type = .ok (.struct structName fields) := by simpa using known
  have used : tables.InUse type := ⟨_, known, rfl⟩
  simp [createInstance, found, Ty.isStruct, ensure, declare_eq { name, type, scope } used]

private theorem modify_last {α : Type} (entries : Array α) (entry : α) (change : α → α) :
    (entries.push entry).modify entries.size change = entries.push (change entry) := by
  apply Array.ext_getElem?
  intro index
  rw [Array.getElem?_modify, Array.getElem?_push, Array.getElem?_push]
  grind

/-- Marking the variable that was just created is creating it marked. -/
theorem markReference_last {entry : Variable} {space : AddressSpace} :
    (tables.addVariables [entry]).markReference ⟨tables.vars.size⟩ space =
      .ok (tables.addVariables [{ entry with reference := some space }]) := by
  simp [markReference, updateVariable, addVariables, modify_last]

/-- The copy of a function that is known is added at the end of the table. -/
theorem cloneFunction_eq (tables : Tables) (change : Function → Function) {id : FunctionId}
    {function : Function} (known : tables.functions[id.index]? = some function) :
    tables.cloneFunction id change =
      .ok (⟨tables.functions.size⟩, (tables.addFunction (change function)).2) := by
  have found : tables.functionAt id = .ok function := by simpa using known
  simp [cloneFunction, found, addFunction]

end Tables

end ShaderPipeline
