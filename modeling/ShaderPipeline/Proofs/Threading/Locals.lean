import ShaderPipeline.Proofs.Dependents
import ShaderPipeline.Proofs.Program
import ShaderPipeline.Proofs.Threading.Recording

/-!
# Threading a shader

The variables of the entry point are declared first, then the declarations are
renewed. `ThreadRun` keeps what one run of threading produced: the tables with
the new variables of the entry point, the last state, and how the declarations
before and after it correspond.
-/

namespace ShaderPipeline

namespace Plan

variable {gathering : Gathering} {tables : Tables}

/-- A local variable of the entry point that holds an instance of a struct. -/
def localEntry (category : Category) (side : Side) (struct : TypeId) : Variable where
  name := category.instanceName side
  type := struct
  scope := .local

/-- The variables of the entry point are new instances of the category's structs. -/
structure LocalsReady (gathering : Gathering) (tables : Tables) (locals : Scoped VariableId)
    (base : Tables) : Prop where
  adds : tables.Adds base
  functions : base.functions = tables.functions
  news : ∀ {index : Nat} {entry : Variable}, tables.vars.size ≤ index →
    base.vars[index]? = some entry → ∃ side struct,
      entry = localEntry gathering.category side struct ∧
        (struct = gathering.internal ∨ struct = gathering.external)
  internal : ∀ id, locals.internal = some id → tables.vars.size ≤ id.index ∧
    base.vars[id.index]? = some (localEntry gathering.category .internal gathering.internal)
  external : ∀ id, locals.external = some id → tables.vars.size ≤ id.index ∧
    ∃ side, base.vars[id.index]? = some (localEntry gathering.category side gathering.external)
  /-- The two are the same variable just in case the layouts are the same. -/
  uniform : ∀ inner outer, locals.internal = some inner → locals.external = some outer →
    (inner = outer ↔ gathering.outer = none)
  hasInternal : gathering.category.alwaysLocal = true ∨ gathering.outer.isSome = true →
    ∃ holder, locals.internal = some holder
  hasExternal : gathering.category.alwaysLocal = true →
    gathering.category.entry ≠ .indexParam → ∃ holder, locals.external = some holder

/-- The local variables are created if the structs of the category are there. -/
theorem createLocals_eq
    (internal : ∃ name fields, tables.types[gathering.internal.index]? = some (.struct name fields))
    (external : ∃ name fields, tables.types[gathering.external.index]? = some (.struct name fields)) :
    ∃ locals base, createLocals gathering tables = .ok (locals, base) ∧
      LocalsReady gathering tables locals base := by
  obtain ⟨internalName, internalFields, internalKnown⟩ := internal
  obtain ⟨externalName, externalFields, externalKnown⟩ := external
  have createInternal (base : Tables) (same : base.types = tables.types) :
      base.createInstance gathering.internal (gathering.category.instanceName .internal) .local =
        .ok (⟨base.vars.size⟩, base.addVariables
          [localEntry gathering.category .internal gathering.internal]) :=
    Tables.createInstance_eq (by rw [same, internalKnown])
  have isInternal : ∀ entry ∈ [localEntry gathering.category .internal gathering.internal],
      ∃ side struct, entry = localEntry gathering.category side struct ∧
        (struct = gathering.internal ∨ struct = gathering.external) := by
    intro entry member
    exact ⟨_, _, List.mem_singleton.mp member, .inl rfl⟩
  have newEntry {news : List Variable} {index : Nat} {entry : Variable}
      (kinds : ∀ entry ∈ news, ∃ side struct, entry = localEntry gathering.category side struct ∧
        (struct = gathering.internal ∨ struct = gathering.external))
      (new : tables.vars.size ≤ index)
      (there : (tables.addVariables news).vars[index]? = some entry) :
      ∃ side struct, entry = localEntry gathering.category side struct ∧
        (struct = gathering.internal ∨ struct = gathering.external) := by
    simp only [Tables.addVariables] at there
    rw [Array.getElem?_append_right new, List.getElem?_toArray] at there
    exact kinds entry (List.mem_of_getElem? there)
  unfold createLocals
  simp only
  split
  case h_1 shape =>
    refine ⟨_, _, by rw [createInternal tables rfl]; rfl, Tables.addVariables_adds _, rfl,
      newEntry isInternal, ?_, by simp, by simp, fun _ => ⟨_, rfl⟩, by simp [shape]⟩
    rintro id ⟨⟩
    simp [Tables.addVariables]
  case h_2 shape same =>
    refine ⟨_, _, rfl, .refl tables, rfl, ?_, by simp, by simp, by simp, ?_, ?_⟩
    · intro index entry new there
      have old := (Array.getElem?_eq_some_iff.mp there).1
      omega
    · simp [Category.alwaysLocal, shape, same]
    · simp [Category.alwaysLocal, shape]
  case h_3 outer shape bridged =>
    refine ⟨_, _, by rw [createInternal tables rfl]; rfl, Tables.addVariables_adds _, rfl,
      newEntry isInternal, ?_, by simp, by simp, fun _ => ⟨_, rfl⟩,
      by simp [Category.alwaysLocal, shape]⟩
    rintro id ⟨⟩
    simp [Tables.addVariables]
  case h_4 shape same _ _ =>
    refine ⟨_, _, by rw [createInternal tables rfl]; rfl, Tables.addVariables_adds _, rfl,
      newEntry isInternal, ?_, ?_, ?_, fun _ => ⟨_, rfl⟩, fun _ _ => ⟨_, rfl⟩⟩
    · rintro id ⟨⟩
      simp [Tables.addVariables]
    · rintro id ⟨⟩
      refine ⟨Nat.le_refl _, .internal, ?_⟩
      simp [Tables.addVariables, Gathering.external, same]
    · rintro inner outer ⟨⟩ ⟨⟩
      simp [same]
  case h_5 outer bridged _ _ =>
    have sameStruct : gathering.external = outer.struct := by simp [Gathering.external, bridged]
    have createExternal : tables.createInstance outer.struct
        (gathering.category.instanceName .external) .local = .ok (⟨tables.vars.size⟩,
          tables.addVariables [localEntry gathering.category .external gathering.external]) := by
      rw [← sameStruct]
      exact Tables.createInstance_eq externalKnown
    have createSecond := createInternal (tables.addVariables
      [localEntry gathering.category .external gathering.external]) rfl
    refine ⟨⟨some ⟨tables.vars.size + 1⟩, some ⟨tables.vars.size⟩⟩,
      tables.addVariables [localEntry gathering.category .external gathering.external,
        localEntry gathering.category .internal gathering.internal],
      by simp [createExternal, createSecond], Tables.addVariables_adds _, rfl,
      newEntry (List.forall_mem_cons.mpr ⟨⟨_, _, rfl, .inr rfl⟩, isInternal⟩), ?_, ?_, ?_,
      fun _ => ⟨_, rfl⟩, fun _ _ => ⟨_, rfl⟩⟩
    · rintro id ⟨⟩
      simp [Tables.addVariables]
    · rintro id ⟨⟩
      refine ⟨Nat.le_refl _, .external, ?_⟩
      simp [Tables.addVariables]
    · rintro inner outer ⟨⟩ ⟨⟩
      simp [bridged]

/-- The initial values of known variables. -/
theorem initialValues_ok (old : ∀ id ∈ gathering.members, id.index < tables.vars.size) :
    ∃ initials, initialValues gathering tables = .ok initials := by
  unfold initialValues
  split
  · have all : ∀ id ∈ gathering.members,
        tables.variableAt id = .ok
          (tables.vars[id.index]?.getD { name := .exact "", type := .void, scope := .global }) := by
      intro id member
      simp [Array.getElem?_eq_getElem (old id member)]
    simp [Outcome.mapM_eq_ok_map all]
  · exact ⟨_, rfl⟩

end Plan

/-- What threading a gathered category through a program relies on. -/
structure Gathering.Fits (gathering : Gathering) (program : Program) (main : FunctionId) : Prop where
  suits : gathering.Suits program.tables
  members : ∀ id ∈ gathering.members, id.index < program.tables.vars.size
  sameLayout : gathering.category.layoutRules = none → gathering.outer = none
  indexField : gathering.category.entry = .indexParam → ∃ name field fields,
    program.tables.types[gathering.internal.index]? = some (.struct name (field :: fields))
  prototypes : ∀ function, .prototype function ∈ program.globals →
    function.index < program.tables.functions.size
  definitions : ∀ definition ∈ program.definitions, ∃ function,
    program.tables.functions[definition.1.index]? = some function ∧
      (function.isMain = true ↔ definition.1 = main)
  once : (program.definitions.map Prod.fst).Nodup

/-- One run of threading a plan through a shader. -/
structure ThreadRun (shader : Shader) (plan : Plan) (main : FunctionId) (result : Shader) where
  base : Tables
  locals : Scoped VariableId
  final : Threading
  ready : Plan.LocalsReady plan.toGathering shader.program.tables locals base
  initials : Plan.initialValues plan.toGathering base = .ok plan.initials
  ground : plan.Ground base locals main
  declared : Threading.Declared plan base shader.program.globals
  coherent : Threading.Coherent plan base locals main final
  recorded : Threading.Recorded plan base main shader.reflection final
  replaced : ∀ id ∈ plan.dependents, ∃ copy, final.updated.lookup id = some copy
  renewed : List.Forall₂ (plan.Renewed final main (plan.substitution final))
    shader.program.globals result.program.globals
  tables : result.program.tables = final.tables
  invariance : result.invariance = shader.invariance
  reflection : result.reflection = final.reflection

namespace Gathering.Fits

variable {gathering : Gathering} {program : Program} {main : FunctionId} {base : Tables}
  {locals : Scoped VariableId}

/-- A dependent function is defined, and its signature is known. -/
theorem dependent_defined (fits : gathering.Fits program main) {id : FunctionId}
    (dependent : id ∈ program.dependents gathering.members.contains) :
    ∃ function, program.tables.functions[id.index]? = some function ∧
      (function.isMain = true ↔ id = main) := by
  obtain ⟨definition, there, rfl⟩ := List.mem_map.mp (Program.dependents_subset dependent)
  exact fits.definitions definition there

/-- Declaring the variables of the entry point prepares everything that threading relies on. -/
theorem ground (fits : gathering.Fits program main) (initials : List (Nat × Constant))
    (ready : Plan.LocalsReady gathering program.tables locals base) :
    Plan.Ground { gathering with
      dependents := program.dependents gathering.members.contains, initials } base locals main where
  suits := fits.suits.adds ready.adds
  internal := ready.hasInternal
  external := ready.hasExternal
  freshLocals := by
    rintro holder (inside | outside) gathered
    · exact Nat.not_lt.mpr (ready.internal holder inside).1 (fits.members holder gathered)
    · exact Nat.not_lt.mpr (ready.external holder outside).1 (fits.members holder gathered)
  oldMembers id member := Nat.lt_of_lt_of_le (fits.members id member) ready.adds.size_vars
  sameLayout := fits.sameLayout
  indexField shape := by
    obtain ⟨name, field, fields, struct⟩ := fits.indexField shape
    exact ⟨name, field, fields, ready.adds.types struct⟩
  known id dependent := by
    obtain ⟨function, known, -⟩ := fits.dependent_defined dependent
    exact ⟨function, ready.adds.functions known⟩
  onlyMain id dependent function known := by
    obtain ⟨other, otherKnown, isMain⟩ := fits.dependent_defined dependent
    obtain rfl : function = other := by simpa [ready.adds.functions otherKnown] using known.symm
    exact isMain

/-- The declarations of the program are what threading expects. -/
theorem declared (fits : gathering.Fits program main) (initials : List (Nat × Constant))
    (adds : program.tables.Adds base) :
    Threading.Declared { gathering with
      dependents := program.dependents gathering.members.contains, initials }
      base program.globals where
  prototypes member := Nat.lt_of_lt_of_le (fits.prototypes _ member) adds.size_functions
  definitions member := by
    obtain ⟨function, known, -⟩ := fits.definitions _ (Program.mem_definitions.mpr member)
    exact Nat.lt_of_lt_of_le (Array.getElem?_eq_some_iff.mp known).1 adds.size_functions
  calls member callee called dependent :=
    Program.mem_dependents_of_call fits.once (Program.mem_definitions.mpr member) called dependent
  symbols member id mentioned gathered :=
    Program.mem_dependents_of_symbol fits.once (Program.mem_definitions.mpr member) mentioned
      (List.contains_iff_mem.mpr gathered)

end Gathering.Fits

/-- Threading a gathered category through a program that it fits succeeds, or refuses an entry
point that returns a value. -/
theorem Shader.thread_run {shader : Shader} {gathering : Gathering} {main : FunctionId}
    (fits : gathering.Fits shader.program main) :
    Outcome.Settles
      (gathering.category.entry = .returnsStruct ∧
        main ∈ shader.program.dependents gathering.members.contains ∧
        ∃ function, shader.program.tables.functions[main.index]? = some function ∧
          function.returnType ≠ .void)
      (.nonVoidMain gathering.category)
      (shader.thread gathering (shader.program.dependents gathering.members.contains))
      fun result => ∃ initials, Nonempty (ThreadRun shader { gathering with
        dependents := shader.program.dependents gathering.members.contains, initials }
        main result) := by
  obtain ⟨locals, base, localsOk, ready⟩ :=
    Plan.createLocals_eq fits.suits.internal fits.suits.external
  obtain ⟨initials, initialsOk⟩ := Plan.initialValues_ok fun id member =>
    Nat.lt_of_lt_of_le (fits.members id member) ready.adds.size_vars
  have ground := fits.ground initials ready
  have declared := fits.declared initials ready.adds
  simp only [Shader.thread, localsOk, initialsOk, Outcome.ok_bind]
  have threads := Threading.threadGlobals_run ground
    (Threading.coherent_start base shader.reflection) declared (List.Subset.refl _)
  rcases threads with ⟨refused, dependent, function, known, shape, -, value⟩ |
    ⟨⟨threaded, final⟩, threadsOk, coherent, -, found, renewed⟩
  · refine .inl ⟨by rw [refused]; rfl, shape, dependent, function, ?_, value⟩
    rwa [ready.functions] at known
  · rw [threadsOk]
    have replaced : ∀ id ∈ shader.program.dependents gathering.members.contains,
        ∃ copy, final.updated.lookup id = some copy := by
      intro id dependent
      obtain ⟨⟨function, body⟩, there, rfl⟩ :=
        List.mem_map.mp (Program.dependents_subset dependent)
      exact found function body (Program.mem_definitions.mp there) dependent
    obtain ⟨results, resultsOk, resultsRenewed⟩ := Threading.readInstances_run ground coherent
      declared (List.Subset.refl _) replaced renewed
    obtain ⟨-, recorded⟩ := (Threading.threadGlobals_updates threadsOk).1.recorded ground
      (Threading.coherent_start base shader.reflection)
      ⟨fun _ => rfl, fun _ lookup => by simp at lookup⟩
    refine .inr ⟨_, by simp only [Outcome.ok_bind, resultsOk, Outcome.pure_eq_ok]; rfl, initials, ⟨?_⟩⟩
    exact {
      base, locals, final, ready, ground, declared, coherent, recorded, replaced
      initials := initialsOk
      renewed := resultsRenewed
      tables := rfl
      invariance := rfl
      reflection := rfl }

end ShaderPipeline
