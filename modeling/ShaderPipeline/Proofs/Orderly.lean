import ShaderPipeline.Proofs.GatherRun
import ShaderPipeline.Proofs.Threading.Locals

/-!
# Orderly programs

An orderly program is valid, every identity in its tables and declarations is
known, and no variable or function is declared twice. A category that was
gathered from an orderly program fits what is left of it, so it can be threaded.
-/

namespace ShaderPipeline

/-- What the makers of a program are trusted to keep, besides validity. -/
structure Program.Orderly (program : Program) : Prop where
  valid : program.check = .ok ()
  sound : program.tables.Sound
  closed : program.tables.Closed
  prototypes : ∀ function, .prototype function ∈ program.globals →
    function.index < program.tables.functions.size
  onceVariables : program.globalVariables.Nodup
  onceDefinitions : (program.definitions.map Prod.fst).Nodup
  noMainCalls : ∀ definition ∈ program.definitions, ∀ callee ∈ Block.calls definition.2,
    ∀ function, program.tables.functions[callee.index]? = some function → function.isMain = false

/-- The functions that prototypes name are checked declaration by declaration. -/
def Global.PrototypeKnown (tables : Tables) : Global → Prop
  | .prototype function => function.index < tables.functions.size
  | _ => True

instance (tables : Tables) (global : Global) : Decidable (global.PrototypeKnown tables) :=
  match global with
  | .prototype function => inferInstanceAs (Decidable (function.index < tables.functions.size))
  | .struct _ | .var _ | .definition _ _ => .isTrue trivial

/-- Being orderly is a condition that can be tested part by part. -/
theorem Program.orderly_iff {program : Program} : program.Orderly ↔
    program.check.isOk = true ∧ program.tables.Sound ∧ program.tables.Closed ∧
      (∀ global ∈ program.globals, global.PrototypeKnown program.tables) ∧
      program.globalVariables.Nodup ∧ (program.definitions.map Prod.fst).Nodup ∧
      ∀ definition ∈ program.definitions, ∀ callee ∈ Block.calls definition.2,
        ∀ function, program.tables.functions[callee.index]? = some function →
          function.isMain = false := by
  constructor
  · intro orderly
    refine ⟨by rw [orderly.valid]; rfl, orderly.sound, orderly.closed, fun global member => ?_,
      orderly.onceVariables, orderly.onceDefinitions, orderly.noMainCalls⟩
    cases global with
    | prototype function => exact orderly.prototypes function member
    | _ => trivial
  · rintro ⟨valid, sound, closed, prototypes, onceVariables, onceDefinitions, noMainCalls⟩
    exact ⟨Outcome.eq_ok_of_isOk valid, sound, closed, fun _ member => prototypes _ member,
      onceVariables, onceDefinitions, noMainCalls⟩

instance (program : Program) : Decidable program.Orderly :=
  decidable_of_iff _ Program.orderly_iff.symm

/-- A shader with a helper that stores its argument in a global variable and gives it back, and an
entry point that calls it. -/
def Shader.storing : Shader where
  program := {
    tables := {
      stage := .fragment
      vars := #[{ name := .temporary "stored", type := .float, scope := .global },
        { name := .temporary "value", type := .float, scope := .parameter }]
      functions := #[.named "store" [⟨⟨1⟩, .input⟩] .float .notApplicable,
        .named "main" [] .void .notApplicable] }
    globals := [.var ⟨0⟩,
      .definition ⟨0⟩ [.assign (.var ⟨0⟩) (.var ⟨1⟩), .ret (some (.var ⟨0⟩))],
      .definition ⟨1⟩ [.eval (.call ⟨0⟩ [.const (.float 0)])]] }

/-- The shader is orderly. -/
theorem Shader.storing_orderly : storing.program.Orderly := by decide +kernel

namespace Program

variable {program : Program}

/-- A valid program has one entry point, and all its declarations pass their checks. -/
theorem check_eq_ok_iff : program.check = .ok () ↔
    program.mainCount = .ok 1 ∧
      ∀ global ∈ program.globals, Validity.checkGlobal program global = .ok () := by
  simp only [check, Outcome.bind_eq_ok_iff, Outcome.forM_eq_ok_iff]
  constructor
  · rintro ⟨mains, counted, ⟨⟩, one, all⟩
    have isOne : mains = 1 := by
      by_contra other
      simp [Validity.obey, other, Validity.violated] at one
    exact ⟨isOne ▸ counted, all⟩
  · rintro ⟨counted, all⟩
    exact ⟨1, counted, (), rfl, all⟩

/-- An orderly program has an entry point. -/
theorem Orderly.enters (orderly : program.Orderly) : ∃ main, program.Enters main :=
  enters_of_mainCount (check_eq_ok_iff.mp orderly.valid).1

end Program

namespace GatherRun

variable {shader result : Shader} {category : Category} {supplied : Option VariableId}
  {gathering : Gathering}

/-- The struct of the category, and the tables it is made in. -/
theorem internal (run : GatherRun shader category supplied gathering result)
    (sound : shader.program.tables.Sound) (closed : shader.program.tables.Closed) :
    Gathering.Internal shader.program.tables category gathering.members supplied
        gathering.internal run.declared run.middle ∧
      Tables.Grows (fun _ => True) shader.program.tables run.middle ∧ run.middle.Sound := by
  have can := Gathering.internalStruct_inv sound closed run.filled run.internalOk
  obtain ⟨struct, declared, after, registry, made, internal, grows, afterSound⟩ :=
    Gathering.internalStruct_run sound closed can
  obtain ⟨rfl, rfl, rfl, -⟩ : gathering.internal = struct ∧ run.declared = declared ∧
      run.middle = after ∧ run.registry = registry := by
    simpa [run.internalOk] using made
  exact ⟨internal, grows, afterSound⟩

/-- The external layout that the run made, or none. -/
theorem bridged (run : GatherRun shader category supplied gathering result) :
    (run.bridge = none ∧ result.program.tables = run.middle) ∨
      ∃ rules bridge fields placements grown, category.layoutRules = some rules ∧
        run.bridge = some bridge ∧ run.middle.fieldsOf gathering.internal = .ok fields ∧
        Layout.placeFields run.middle rules fields 0 = .ok (placements, grown) ∧
        Layout.Bridges run.middle rules gathering.internal (category.structName .external)
          placements bridge result.program.tables ∧
        (grown.addStruct (category.structName .external)
          ((Layout.order rules placements).map Placement.field)).2.Adds
            result.program.tables := by
  rcases run.bridge_cases with ⟨rules, hasRules, made⟩ | ⟨none, same, -⟩
  · rcases (Layout.createBridge_inv made).2 with ⟨none, same, -⟩ |
      ⟨bridge, fields, placements, grown, some, fieldsOk, placesOk, bridges, adds, -⟩
    · exact .inl ⟨none, same⟩
    · exact .inr ⟨rules, bridge, fields, placements, grown, hasRules, some, fieldsOk, placesOk,
        bridges, adds⟩
  · exact .inl ⟨none, same⟩

/-- Gathering only adds to the tables. -/
theorem extended (run : GatherRun shader category supplied gathering result) :
    run.middle.Extends result.program.tables := by
  rcases run.bridged with ⟨-, same⟩ | ⟨rules, bridge, fields, placements, grown, -, -, -, placesOk,
    -, adds⟩
  · exact same ▸ .refl _
  · exact ((Layout.placeFields_makes placesOk).registers.toExtends.trans
      (Tables.addStruct_extends _ _)).trans adds.toExtends

/-- The external layout of a run whose category has one. -/
structure Outside (run : GatherRun shader category supplied gathering result) (grown : Tables)
    (bridge : Bridge) (rules : LayoutRules) (fields : List Field) (placements : List Placement) :
    Prop where
  hasRules : category.layoutRules = some rules
  struct : ∃ name, run.middle.types[gathering.internal.index]? = some (.struct name fields)
  placed : Layout.PlacedFrom grown rules fields 0 placements
  bridges : Layout.Bridges run.middle rules gathering.internal (category.structName .external)
    placements bridge result.program.tables

/-- Gathering adds types to the tables, then variables and functions, and the types keep the wanted
extents. -/
theorem grown (run : GatherRun shader category supplied gathering result)
    (sound : shader.program.tables.Sound) (acyclic : shader.program.tables.Acyclic)
    (closed : shader.program.tables.Closed) {sizes : Nat → Prop}
    (sized : shader.program.tables.Sized sizes)
    (filled : category.layoutRules ≠ none → ∀ size, sizes size → 0 < size) :
    ∃ grown, Tables.Grows sizes shader.program.tables grown ∧ grown.Adds result.program.tables ∧
      grown.Sound ∧ ∀ bridge, run.bridge = some bridge →
        ∃ rules fields placements, run.Outside grown bridge rules fields placements := by
  have can : Gathering.CanGather shader.program.tables shader.invariance category supplied
      gathering.members sizes := by
    have anyway := Gathering.internalStruct_inv sound closed run.filled run.internalOk
    cases supplied with
    | some id => exact anyway
    | none =>
      refine ⟨anyway.1, fun id member => ?_⟩
      obtain ⟨entry, known, sampler⟩ := anyway.2 id member
      refine ⟨entry, known, fun textures => ?_⟩
      obtain ⟨free, extents, kind, ⟨short, base, shape, known⟩, -⟩ := sampler textures
      exact ⟨free, extents, kind, ⟨short, base, shape, known⟩, shape.sized sized⟩
  obtain ⟨struct, declared, middle, registry, made, internal, grows, middleSound⟩ :=
    Gathering.internalStruct_run sound closed can
  obtain ⟨rfl, rfl, rfl, -⟩ : gathering.internal = struct ∧ run.declared = declared ∧
      run.middle = middle ∧ run.registry = registry := by
    simpa [run.internalOk] using made
  rcases run.bridged with ⟨none, same⟩ | ⟨rules, bridge, fields, placements, grown, hasRules, some,
    fieldsOk, placesOk, bridges, adds⟩
  · exact ⟨run.middle, grows, same ▸ .refl _, middleSound, by simp [none]⟩
  · obtain ⟨name, structKnown⟩ := Tables.fieldsOf_eq_ok_iff.mp fieldsOk
    have inside : ∀ field ∈ fields, field.type.index < run.middle.types.size := by
      intro field member
      have earlier := grows.acyclic acyclic structKnown field.type (List.mem_map_of_mem member)
      exact Nat.lt_trans earlier (Tables.index_lt_of_getElem? structKnown)
    have middleSized : run.middle.Sized sizes := grows.sized sized
    obtain ⟨placed, -⟩ := Layout.placeFields_placed middleSound middleSized
      (filled (by simp [hasRules])) placesOk
    obtain ⟨toGrown, -⟩ := Layout.placeFields_grows middleSound middleSized placesOk
    -- The external struct is made of the types that were placed.
    have novel : grown.Novel sizes grown.types.size (.struct (category.structName .external)
        ((Layout.order rules placements).map Placement.field)) := by
      intro field member
      obtain ⟨placement, own, rfl⟩ := List.mem_map.mp member
      refine (placed.holds placement (Layout.mem_order.mp own)).index_lt fun field member => ?_
      exact Nat.lt_of_lt_of_le (inside field member) toGrown.size_types
    have toStruct := Tables.addStruct_grows novel
    refine ⟨_, (grows.trans toGrown.toGrows).trans toStruct, adds,
      toStruct.sound (toGrown.sound middleSound) fun member => .inl member,
      fun other isBridge => ?_⟩
    obtain rfl : other = bridge := by simpa [some] using isBridge.symm
    exact ⟨rules, fields, placements, hasRules, ⟨name, structKnown⟩,
      placed.extends toStruct.toExtends, bridges⟩

/-- The slots of fields that stand for samplers are complete. -/
theorem slots_ready {before after : Tables} (sound : after.Sound) {members : List VariableId}
    {fields : List Field}
    (isFields : List.Forall₂ (fun id field => ∃ entry, before.vars[id.index]? = some entry ∧
      Tables.FieldFor .textures before after entry field) members fields) :
    ∀ slot ∈ TextureSlot.ofFields after fields, slot.Ready after := by
  intro slot member
  simp only [TextureSlot.ofFields, List.mem_flatten, List.mem_mapIdx] at member
  obtain ⟨slots, ⟨position, inside, rfl⟩, chosen⟩ := member
  obtain ⟨element, -, rfl⟩ := List.mem_map.mp chosen
  obtain ⟨id, -, entry, -, isField⟩ :=
    Outcome.forall₂_exists_left isFields (List.getElem_mem inside)
  simp only [Tables.FieldFor, if_true] at isField
  obtain ⟨env, isEnvField, extents, kind, base, ⟨short, -⟩, isEnv, shape⟩ := isField
  obtain ⟨texture, texturePointer, samplerPointer, struct, first, second, third⟩ := isEnv
  have inTable := Tables.index_lt_of_getElem? struct
  have shapeIs : after.shapeOf fields[position].type = ⟨extents, base⟩ := by
    rw [isEnvField]
    exact shape.shapeOf_eq (by omega)
  refine ⟨_, _, _, by rw [shapeIs]; exact struct, ?_⟩
  simp only [List.forall_mem_cons]
  exact ⟨⟨_, texture, first, rfl, _, second, rfl⟩,
    ⟨_, .sampler, third, rfl, .sampler, sound.predefined rfl, rfl⟩, by simp⟩

/-- The category's structs are what threading needs them to be. -/
theorem suits (run : GatherRun shader category supplied gathering result)
    (sound : shader.program.tables.Sound) (closed : shader.program.tables.Closed)
    (only : supplied.isSome = true → category = .suppliedUniforms) :
    gathering.Suits result.program.tables := by
  obtain ⟨internal, grows, middleSound⟩ := run.internal sound closed
  have extended := run.extended
  obtain ⟨name, fields, struct⟩ := internal.known
  have notSupplied (other : category ≠ .suppliedUniforms) : supplied = none := by
    cases supplied with
    | none => rfl
    | some id => exact absurd (only rfl) other
  -- Without a layout of its own, the struct is the same on both sides and no table grew.
  have sameSide (noRules : category.layoutRules = none) :
      gathering.external = gathering.internal ∧ result.program.tables = run.middle := by
    rcases run.bridged with ⟨none, same⟩ | ⟨rules, _, _, _, _, hasRules, _⟩
    · simp [Gathering.external, run.outer, none, same]
    · simp [noRules] at hasRules
  refine ⟨⟨name, fields, extended.types struct⟩, ?_,
    ⟨.scalar .uint, extended.types (middleSound.predefined rfl), rfl⟩, ?_, ?_⟩
  · rcases run.bridged with ⟨none, -⟩ | ⟨_, bridge, _, _, _, -, some, -, -, bridges, -⟩
    · exact ⟨name, fields, by simpa [Gathering.external, run.outer, none] using extended.types struct⟩
    · exact ⟨_, _, by simpa [Gathering.external, run.outer, some] using bridges.external⟩
  · intro shape otherName otherFields external field member
    rw [run.sameCategory] at shape
    have unsupplied : supplied = none := notSupplied (by rintro rfl; simp [Category.entry] at shape)
    subst unsupplied
    obtain ⟨same, sameTables⟩ :=
      sameSide (Category.layoutRules_eq_none (by simp [shape]) (by simp [shape]))
    obtain ⟨created, createdKnown, isFields⟩ := internal.isFields
    rw [same, sameTables, createdKnown] at external
    obtain ⟨-, rfl⟩ : _ ∧ created = otherFields := by simpa using external
    obtain ⟨id, -, entry, there, isField⟩ := Outcome.forall₂_exists_left isFields member
    rw [sameTables]
    exact middleSound.inUse_of_lt
      (isField.type_lt (Nat.lt_of_lt_of_le (closed.vars there) grows.size_types))
  · intro shape otherName otherFields external
    rw [run.sameCategory] at shape
    have isTextures : category = .textures := by
      cases category <;> simp [Category.entry] at shape ⊢
    have unsupplied : supplied = none := notSupplied (by simp [isTextures])
    subst unsupplied isTextures
    obtain ⟨same, sameTables⟩ := sameSide rfl
    obtain ⟨created, createdKnown, isFields⟩ := internal.isFields
    rw [same, sameTables, createdKnown] at external
    obtain ⟨-, rfl⟩ : _ ∧ created = otherFields := by simpa using external
    rw [sameTables]
    exact slots_ready middleSound isFields

/-- The declarations that gathering adds. -/
def news (run : GatherRun shader category supplied gathering result) : List Global :=
  run.declared ++ (run.bridge.map Bridge.globals).getD []

/-- A new struct is declared; a supplied one was. -/
theorem declared_eq (run : GatherRun shader category supplied gathering result) :
    run.declared = [] ∨ run.declared = [.struct gathering.internal] := by
  have made := run.internalOk
  cases supplied with
  | none =>
    simp only [Gathering.internalStruct, Outcome.bind_eq_ok_iff, Outcome.pure_eq_ok,
      Except.ok.injEq, Prod.mk.injEq] at made
    obtain ⟨_, -, sameStruct, same, -⟩ := made
    exact .inr (by rw [← same, sameStruct])
  | some id =>
    simp only [Gathering.internalStruct, Outcome.bind_eq_ok_iff, Outcome.pure_eq_ok,
      Except.ok.injEq, Prod.mk.injEq] at made
    obtain ⟨_, -, _, -, _, -, -, same, -⟩ := made
    exact .inl same.symm

/-- No new declaration is that of a variable. -/
theorem news_declared (run : GatherRun shader category supplied gathering result) :
    run.news.filterMap Global.declared? = [] := by
  rcases run.declared_eq with none | one
  · cases bridge : run.bridge <;> simp [news, none, bridge, Bridge.globals, Global.declared?]
  · cases bridge : run.bridge <;> simp [news, one, bridge, Bridge.globals, Global.declared?]

/-- Gathering declares no global variable. -/
theorem var_not_new (run : GatherRun shader category supplied gathering result)
    (id : VariableId) : .var id ∉ run.news := by
  intro new
  have declared : id ∈ run.news.filterMap Global.declared? := List.mem_filterMap.mpr ⟨_, new, rfl⟩
  simp [run.news_declared] at declared

/-- The global variables that are not gathered are declared as before. -/
theorem globalVariables_eq (run : GatherRun shader category supplied gathering result) :
    result.program.globalVariables = shader.program.globalVariables.filter fun id =>
      !Gathering.accepts (category.claims shader.program.tables supplied) id := by
  have kept (globals : List Global) : (globals.filter (Gathering.stays
      (category.claims shader.program.tables supplied))).filterMap Global.declared? =
        (globals.filterMap Global.declared?).filter fun id =>
          !Gathering.accepts (category.claims shader.program.tables supplied) id := by
    induction globals with
    | nil => rfl
    | cons global globals inductionHypothesis =>
      cases global with
      | var id =>
        cases accepted : Gathering.accepts (category.claims shader.program.tables supplied) id <;>
          simp [Gathering.stays, accepted, Global.declared?, inductionHypothesis]
      | struct | prototype | definition =>
        simpa [List.filter_cons, List.filterMap_cons, Gathering.stays, Global.declared?] using
          inductionHypothesis
  rw [Program.globalVariables, run.globals, ← news, List.filterMap_append, List.filterMap_append,
    run.news_declared, List.append_nil, ← List.filterMap_append, List.take_append_drop, kept]
  rfl

/-- Every declaration that is left stood there before or is new. -/
theorem mem_globals (run : GatherRun shader category supplied gathering result) {global : Global} :
    global ∈ result.program.globals ↔ (global ∈ shader.program.globals ∧
      Gathering.stays (category.claims shader.program.tables supplied) global = true) ∨
        global ∈ run.news := by
  rw [run.globals, List.append_assoc, List.mem_append, List.mem_append, ← news,
    or_left_comm, ← List.mem_append, List.take_append_drop, List.mem_filter, or_comm]

/-- The declarations that stay and the new ones, in another order. -/
theorem globals_perm (run : GatherRun shader category supplied gathering result) :
    result.program.globals.Perm (shader.program.globals.filter
      (Gathering.stays (category.claims shader.program.tables supplied)) ++ run.news) := by
  have moved := (@List.perm_append_comm _ run.news ((shader.program.globals.filter
    (Gathering.stays (category.claims shader.program.tables supplied))).drop
      run.place)).append_left ((shader.program.globals.filter
        (Gathering.stays (category.claims shader.program.tables supplied))).take run.place)
  rw [← List.append_assoc, ← List.append_assoc, List.take_append_drop] at moved
  rw [run.globals]
  exact moved

/-- The definitions are the old ones and that of the conversion function. -/
theorem definitions_perm (run : GatherRun shader category supplied gathering result) :
    result.program.definitions.Perm (shader.program.definitions ++
      (run.bridge.map fun bridge => (bridge.function, bridge.body)).toList) := by
  have kept : (shader.program.globals.filter (Gathering.stays
      (category.claims shader.program.tables supplied))).filterMap Global.definition? =
        shader.program.definitions := by
    rw [List.filterMap_filter, Program.definitions]
    congr 1
    funext global
    cases global <;> simp [Gathering.stays, Global.definition?]
  have new : run.news.filterMap Global.definition? =
      (run.bridge.map fun bridge => (bridge.function, bridge.body)).toList := by
    have declared : run.declared.filterMap Global.definition? = [] := by
      rcases run.declared_eq with none | struct
      · simp [none]
      · simp [struct, Global.definition?]
    rw [news, List.filterMap_append, declared]
    cases run.bridge with
    | none => rfl
    | some bridge => rfl
  have moved := run.globals_perm.filterMap Global.definition?
  rwa [List.filterMap_append, kept, new] at moved

/-- The variables that were gathered are known. -/
theorem member_known (run : GatherRun shader category supplied gathering result) {id : VariableId}
    (member : id ∈ gathering.members) :
    .var id ∈ shader.program.globals ∧
      ∃ entry, shader.program.tables.vars[id.index]? = some entry := by
  rw [run.members] at member
  have declared := (List.mem_filter.mp member).1
  obtain ⟨answer, tested⟩ := run.tested id declared
  simp only [Category.claims, Outcome.bind_eq_ok_iff, Tables.variableAt_eq_ok_iff] at tested
  obtain ⟨entry, known, -⟩ := tested
  exact ⟨Gathering.mem_declaredIn.mp declared, entry, known⟩

/-- The conversion function is new, and not the entry point. -/
theorem bridge_function (run : GatherRun shader category supplied gathering result)
    (same : run.middle.functions = shader.program.tables.functions) {bridge : Bridge}
    (bridged : run.bridge = some bridge) :
    bridge.function.index = shader.program.tables.functions.size ∧
      ∃ entry, result.program.tables.functions[bridge.function.index]? = some entry ∧
        entry.isMain = false := by
  rcases run.bridged with ⟨none, -⟩ | ⟨rules, other, _, _, _, -, some, -, -, bridges, -⟩
  · simp [none] at bridged
  · obtain rfl : other = bridge := by simpa [bridged] using some.symm
    rw [bridges.function, bridges.functions, same]
    exact ⟨rfl, _, Array.getElem?_push_size, Layout.convertFunction_isMain _ _ _⟩

/-- The body of the conversion function. -/
theorem bridge_body (run : GatherRun shader category supplied gathering result) {bridge : Bridge}
    (bridged : run.bridge = some bridge) : ∃ conversion placements,
      bridge.body = Layout.convertBody result.program.tables conversion
        ⟨run.middle.vars.size⟩ ⟨run.middle.vars.size + 1⟩ placements := by
  rcases run.bridged with ⟨none, -⟩ | ⟨rules, other, _, placements, _, -, some, -, -, bridges, -⟩
  · simp [none] at bridged
  · obtain rfl : other = bridge := by simpa [bridged] using some.symm
    exact ⟨_, _, bridges.body⟩

/-- The conversion function is none that the shader has. -/
theorem bridge_function_ne (run : GatherRun shader category supplied gathering result)
    (same : run.middle.functions = shader.program.tables.functions) {bridge : Bridge}
    (bridged : run.bridge = some bridge) {function : FunctionId} {entry : Function}
    (known : shader.program.tables.functions[function.index]? = some entry) :
    function ≠ bridge.function := by
  rintro rfl
  have inside := (Array.getElem?_eq_some_iff.mp known).1
  exact Nat.ne_of_lt inside (run.bridge_function same bridged).1

/-- The definition that was found is that of the entry point. -/
theorem enters_main (run : GatherRun shader category supplied gathering result)
    (orderly : shader.program.Orderly) : shader.program.Enters run.main := by
  obtain ⟨main, enters⟩ := orderly.enters
  obtain ⟨-, ⟨body, there⟩, entry, mainKnown, isMain⟩ := Program.findMain_inv run.findsMain
  have defined : (run.main, body) ∈ shader.program.definitions :=
    Program.mem_definitions.mpr (List.mem_filter.mp (List.mem_of_getElem? there)).1
  obtain ⟨other, otherKnown, onlyMain⟩ := enters.isMain _ defined
  obtain rfl : other = entry := by simpa [mainKnown] using otherKnown.symm
  obtain rfl : run.main = main := onlyMain.mp isMain
  exact enters

/-- All prototypes that are left are old ones. -/
theorem prototype_old (run : GatherRun shader category supplied gathering result)
    {function : FunctionId} (member : .prototype function ∈ result.program.globals) :
    .prototype function ∈ shader.program.globals := by
  rcases run.mem_globals.mp member with ⟨old, -⟩ | new
  · exact old
  · simp only [news, List.mem_append] at new
    rcases new with struct | bridge
    · rcases run.declared_eq with none | one
      · simp [none] at struct
      · simp [one] at struct
    · cases bridged : run.bridge with
      | none => simp [bridged] at bridge
      | some made => simp [bridged, Bridge.globals] at bridge

/-- The functions that are defined are known, and only the entry point is flagged as one. -/
theorem definition_known (run : GatherRun shader category supplied gathering result)
    (orderly : shader.program.Orderly) {definition : FunctionId × Block}
    (member : definition ∈ result.program.definitions) : ∃ function,
      result.program.tables.functions[definition.1.index]? = some function ∧
        (function.isMain = true ↔ definition.1 = run.main) := by
  have enters := run.enters_main orderly
  obtain ⟨-, grows, -⟩ := run.internal orderly.sound orderly.closed
  have extended := grows.toExtends.trans run.extended
  rcases List.mem_append.mp (run.definitions_perm.mem_iff.mp member) with old | new
  · obtain ⟨entry, known, onlyMain⟩ := enters.isMain definition old
    exact ⟨entry, extended.functions known, onlyMain⟩
  · obtain ⟨bridge, bridged, rfl⟩ : ∃ bridge, run.bridge = some bridge ∧
        (bridge.function, bridge.body) = definition := by simpa using new
    obtain ⟨-, entry, known, notMain⟩ := run.bridge_function grows.sameFunctions bridged
    obtain ⟨body, defined⟩ := enters.defined
    obtain ⟨main, mainKnown, -⟩ := enters.isMain _ defined
    have other := run.bridge_function_ne grows.sameFunctions bridged mainKnown
    exact ⟨entry, known, by simp [notMain, other.symm]⟩

/-- No function is defined twice. -/
theorem definitions_once (run : GatherRun shader category supplied gathering result)
    (orderly : shader.program.Orderly) : (result.program.definitions.map Prod.fst).Nodup := by
  obtain ⟨main, enters⟩ := orderly.enters
  obtain ⟨-, grows, -⟩ := run.internal orderly.sound orderly.closed
  refine (run.definitions_perm.map Prod.fst).nodup_iff.mpr ?_
  rw [List.map_append]
  cases bridged : run.bridge with
  | none => simpa using orderly.onceDefinitions
  | some bridge =>
    simp only [Option.map_some, Option.toList_some, List.map_cons, List.map_nil]
    refine List.nodup_append.mpr ⟨orderly.onceDefinitions, by simp, ?_⟩
    intro function old other new
    obtain rfl := List.mem_singleton.mp new
    obtain ⟨definition, member, rfl⟩ := List.mem_map.mp old
    obtain ⟨entry, known, -⟩ := enters.isMain definition member
    exact run.bridge_function_ne grows.sameFunctions bridged known

/-- A gathered category fits the program that is left. -/
theorem fits (run : GatherRun shader category supplied gathering result)
    (orderly : shader.program.Orderly)
    (only : supplied.isSome = true → category = .suppliedUniforms) :
    shader.program.Enters run.main ∧ gathering.Fits result.program run.main := by
  obtain ⟨internal, grows, -⟩ := run.internal orderly.sound orderly.closed
  have extended := grows.toExtends.trans run.extended
  refine ⟨run.enters_main orderly, ?_⟩
  exact {
    suits := run.suits orderly.sound orderly.closed only
    members := fun id member => by
      obtain ⟨-, entry, known⟩ := run.member_known member
      exact (Array.getElem?_eq_some_iff.mp (extended.vars known)).1
    sameLayout := fun noRules => by
      rw [run.sameCategory] at noRules
      rcases run.bridged with ⟨none, -⟩ | ⟨rules, _, _, _, _, hasRules, _⟩
      · simp [run.outer, none]
      · simp [noRules] at hasRules
    indexField := fun shape => by
      rw [run.sameCategory] at shape
      obtain rfl : supplied = none := by
        cases supplied with
        | none => rfl
        | some id => simp [only rfl, Category.entry] at shape
      obtain ⟨fields, known, isFields⟩ := internal.isFields
      cases fields with
      | nil => exact absurd (List.forall₂_nil_right_iff.mp isFields) run.filled
      | cons field fields => exact ⟨_, field, fields, run.extended.types known⟩
    prototypes := fun function member =>
      Nat.lt_of_lt_of_le (orderly.prototypes function (run.prototype_old member))
        extended.size_functions
    definitions := fun definition => run.definition_known orderly
    once := run.definitions_once orderly }

end GatherRun

end ShaderPipeline
