import ShaderPipeline.Proofs.Semantics.Conversion

/-!
# What the conversion function of a category does

`Shader.encode` is the value of a category's struct in the external layout, told
from the values of the category's variables and from the layout rules alone. If
there is no conversion function it is the value of the struct itself, and if there
is one, calling it takes the encoded value to the struct or the struct to the
encoded value, and changes nothing else that matters.
-/

namespace ShaderPipeline

/-- The values of the variables of a category as they cross the boundary of the shader: the parts of
all values, in the order of the external struct. -/
def Shader.encode (shader : Shader) (category : Category) (rules : LayoutRules)
    (values : VariableId → Value) : Value :=
  .aggregate (Layout.arrange rules ((shader.claimed category none).flatMap fun id =>
    match shader.program.tables.vars[id.index]? with
    | some entry =>
      Layout.encodeParts shader.program.tables rules entry.builtIn.isSome entry.type (values id)
    | none => []))

/-- The values of the variables of a category have the types of the variables. -/
def Shader.HasValues (shader : Shader) (category : Category) (values : VariableId → Value) : Prop :=
  ∀ id ∈ shader.claimed category none, ∀ {entry : Variable},
    shader.program.tables.vars[id.index]? = some entry →
      shader.program.tables.HasValue entry.type (values id)

/-- Only the samplers have no layout of their own and no fields for the variables themselves. -/
theorem Category.ne_textures {category : Category} {rules : LayoutRules}
    (hasRules : category.layoutRules = some rules) : category ≠ .textures := by
  rintro rfl
  simp [layoutRules] at hasRules

namespace CategoryRun

variable {shader threaded : Shader} {category : Category} {rules : LayoutRules}
  {sizes : Nat → Prop} (run : CategoryRun shader category none threaded)

/-- The fields of a struct stand for the gathered variables. -/
def Fields (fields : List Field) : Prop :=
  List.Forall₂ (fun id field => ∃ entry, shader.program.tables.vars[id.index]? = some entry ∧
    field.type = entry.type ∧ field.builtIn = entry.builtIn) run.gathering.members fields

/-- The struct of a category has the fields of its variables. -/
theorem struct_fields (hasRules : category.layoutRules = some rules) {name : Name}
    {fields : List Field} (known : threaded.program.tables.types[run.gathering.internal.index]? =
      some (.struct name fields)) : run.Fields fields := by
  obtain ⟨others, otherKnown, isFields⟩ := run.member_field rfl
  obtain ⟨-, rfl⟩ := Ty.struct.inj (Option.some.inj (known.symm.trans otherKnown))
  refine isFields.imp fun id field ⟨entry, entryKnown, isField⟩ => ⟨entry, entryKnown, ?_⟩
  simp only [Tables.FieldFor, Category.ne_textures hasRules, if_false] at isField
  simp [isField]

variable {run}

/-- The fields that stand for gathered variables have known types. -/
theorem Fields.inside {fields : List Field} (isFields : run.Fields fields) :
    ∀ field ∈ fields, field.type.index < shader.program.tables.types.size := by
  intro field member
  obtain ⟨id, -, entry, known, sameType, -⟩ := Outcome.forall₂_exists_left isFields member
  exact sameType ▸ run.orderly.closed.vars known

/-- The placements of the fields hold the encoded parts. -/
theorem Fields.encode_eq {fields : List Field} (isFields : run.Fields fields)
    (acyclic : shader.program.tables.Acyclic) {grown : Tables}
    (extended : shader.program.tables.Extends grown) (sound : grown.Sound)
    {placements : List Placement} (placed : Layout.PlacedFrom grown rules fields 0 placements)
    (values : VariableId → Value) :
    shader.encode category rules values = .aggregate ((Layout.order rules placements).map
      (Placement.held (.aggregate (run.gathering.members.map values)))) := by
  have zipped {members : List VariableId} {fields : List Field}
      (each : List.Forall₂ (fun id field => ∃ entry,
        shader.program.tables.vars[id.index]? = some entry ∧ field.type = entry.type ∧
          field.builtIn = entry.builtIn) members fields) :
      (members.flatMap fun id => match shader.program.tables.vars[id.index]? with
        | some entry => Layout.encodeParts shader.program.tables rules entry.builtIn.isSome entry.type
          (values id)
        | none => []) = (fields.zip (members.map values)).flatMap fun pair =>
          Layout.encodeParts shader.program.tables rules pair.1.builtIn.isSome pair.1.type pair.2 := by
    induction each with
    | nil => rfl
    | cons head _ inductionHypothesis =>
      obtain ⟨entry, known, sameType, sameBuiltIn⟩ := head
      rw [List.flatMap_cons, List.map_cons, List.zip_cons_cons, List.flatMap_cons,
        inductionHypothesis, known, sameType, sameBuiltIn]
  have parts := @Layout.PlacedFrom.encodes _ _ _ acyclic extended sound _ _ _ placed isFields.inside
    (run.gathering.members.map values) (by simpa using isFields.length_eq.symm) [] rfl
  rw [Shader.encode, run.claimed_eq, zipped isFields, ← parts, Layout.arrange_map, List.nil_append]

variable (run)

/-- Without a conversion function, what is encoded is the struct itself. -/
theorem encode_same (grounded : shader.program.Grounded sizes)
    (filled : ∀ size, sizes size → 0 < size) (hasRules : category.layoutRules = some rules)
    (unbridged : run.gathering.outer = none) (values : VariableId → Value) :
    shader.encode category rules values = .aggregate (run.gathering.members.map values) := by
  have noBridge : run.gather.bridge = none := by simpa [run.gather.outer] using unbridged
  have made := run.gather.bridgeOk
  simp only [Gathering.bridge?, hasRules, noBridge] at made
  obtain ⟨fields, placements, grown, fieldsOk, placesOk⟩ := Layout.createBridge_places made
  obtain ⟨unsplit, sameTypes, sameOrder⟩ :=
    (Layout.createBridge_eq_none_iff fieldsOk placesOk made).mp rfl
  obtain ⟨name, struct⟩ := Tables.fieldsOf_eq_ok_iff.mp fieldsOk
  obtain ⟨-, grows, middleSound⟩ := run.gather.internal run.orderly.sound run.orderly.closed
  have later := run.gather.extended.trans run.threaded_adds.toExtends
  have isFields := run.struct_fields hasRules (later.types struct)
  have inside : ∀ field ∈ fields, field.type.index < run.gather.middle.types.size :=
    fun field member => Nat.lt_of_lt_of_le (isFields.inside field member) grows.size_types
  have middleAcyclic : run.gather.middle.Acyclic := grows.acyclic grounded.acyclic
  have sized : run.gather.middle.Sized sizes := fun known =>
    run.result_sized grounded (fun _ => filled) (later.types known)
  obtain ⟨placed, -⟩ := Layout.placeFields_placed middleSound sized filled placesOk
  obtain ⟨toGrown, -⟩ := Layout.placeFields_grows middleSound sized placesOk
  have grownSound := toGrown.sound middleSound
  have whole : ∀ field ∈ fields, ∀ extents base,
      Layout.Splits grown rules field.type extents base → extents = [] := by
    intro field member extents base splits
    have flat := unsplit field member
    unfold Layout.Splits at splits
    split at splits
    case isTrue inline =>
      have known := (middleAcyclic.shapeOf_eq (inside field member)).extends toGrown.toExtends
      rw [(known.unique splits).1]
      simpa [Layout.splits, inline] using flat
    case isFalse => exact splits.1
  rw [isFields.encode_eq grounded.acyclic (grows.toExtends.trans toGrown.toExtends) grownSound placed,
    placed.held_eq whole sameTypes sameOrder (by simpa using isFields.length_eq.symm)]

/-- The conversion function is defined as it was made. -/
theorem bridge_defined {bridge : Bridge} (bridged : run.gather.bridge = some bridge) :
    (bridge.function, bridge.body) ∈ threaded.program.definitions :=
  run.free_defined (run.bridge_gathered bridged) (run.bridge_free bridged)

end CategoryRun

/-- Inputs keep their order, and outputs keep their types. -/
theorem Category.layoutRules_cases {category : Category} {rules : LayoutRules}
    (hasRules : category.layoutRules = some rules) :
    (category.isOut = false ∧ rules.conversion = .toInternal ∧ rules.builtInsFirst = false) ∨
      (category.isOut = true ∧ rules.conversion = .toExternal ∧ rules.widenBools = false) := by
  cases category <;> simp only [layoutRules, Option.some.injEq, reduceCtorEq] at hasRules <;>
    subst hasRules <;> decide

namespace CategoryRun

variable {shader threaded : Shader} {category : Category} {rules : LayoutRules}
  (run : CategoryRun shader category none threaded)

/-- The external layout of a category with a conversion function, as the tables of the result hold
it. -/
structure Lays (outer : OuterLayout) (rules : LayoutRules) (fields : List Field)
    (placements : List Placement) : Prop where
  internal : ∃ name, threaded.program.tables.types[run.gathering.internal.index]? =
    some (.struct name fields)
  external : ∃ name, threaded.program.tables.types[outer.struct.index]? =
    some (.struct name ((Layout.order rules placements).map Placement.field))
  placed : Layout.PlacedFrom threaded.program.tables rules fields 0 placements
  body : (outer.convert, Layout.convertBody threaded.program.tables rules.conversion
    ⟨run.gather.middle.vars.size⟩ ⟨run.gather.middle.vars.size + 1⟩
    (Layout.order rules placements)) ∈ threaded.program.definitions

/-- A category with an external layout has that layout in the tables of the result. -/
theorem lays {sizes : Nat → Prop} (grounded : shader.program.Grounded sizes)
    (filled : ∀ size, sizes size → 0 < size) (hasRules : category.layoutRules = some rules)
    {outer : OuterLayout} (isOuter : run.gathering.outer = some outer) :
    ∃ fields placements, run.Lays outer rules fields placements := by
  rw [run.gather.outer] at isOuter
  obtain ⟨bridge, bridged, rfl⟩ := Option.map_eq_some_iff.mp isOuter
  obtain ⟨grown, -, adds, -, bridges⟩ := run.grown grounded fun _ => filled
  obtain ⟨others, fields, placements, outside⟩ := bridges bridge bridged
  obtain rfl : others = rules := Option.some.inj (outside.hasRules.symm.trans hasRules)
  obtain ⟨name, struct⟩ := outside.struct
  have later := run.threaded_adds
  refine ⟨fields, placements, ⟨name, (run.gather.extended.trans later.toExtends).types struct⟩,
    ⟨_, later.types outside.bridges.external⟩, outside.placed.extends adds.toExtends, ?_⟩
  rw [Layout.convertBody_congr later.sameTypes, ← outside.bridges.body]
  exact run.bridge_defined bridged

variable {run} {outer : OuterLayout} {fields : List Field} {placements : List Placement}

/-- What the conversion function writes to what it is given to write to. -/
theorem Lays.writes (lays : run.Lays outer rules fields placements)
    (hasRules : category.layoutRules = some rules) (acyclic : shader.program.tables.Acyclic)
    (later : threaded.program.tables.Acyclic) (sound : threaded.program.tables.Sound)
    (filled : threaded.program.tables.Sized (0 < ·)) {interp : Interpretation}
    {values : VariableId → Value}
    (readable : category.isOut = false → shader.HasValues category values ∧
      (rules.widenBools = true → interp.ReadsTruth threaded.program.tables)) :
    (threaded.program.tables.zero
        (rules.conversion.target run.gathering.internal outer.struct)).writeAll
      ((Layout.order rules placements).mapIdx (Layout.fieldWrites interp threaded.program.tables
        rules.conversion (rules.conversion.source
          (.aggregate (run.gathering.members.map values))
          (shader.encode category rules values)))).flatten =
      rules.conversion.target (.aggregate (run.gathering.members.map values))
        (shader.encode category rules values) := by
  obtain ⟨name, internal⟩ := lays.internal
  obtain ⟨externalName, external⟩ := lays.external
  have isFields := run.struct_fields hasRules internal
  have encodes := isFields.encode_eq acyclic run.extended sound lays.placed values
  rcases Category.layoutRules_cases hasRules with
    ⟨isIn, toInternal, -⟩ | ⟨isOut, toExternal, narrow⟩
  · obtain ⟨typed, reads⟩ := readable isIn
    have valuesTyped : Layout.HaveValues threaded.program.tables fields
        (run.gathering.members.map values) := by
      rw [Layout.HaveValues, List.forall₂_map_right_iff]
      refine (Outcome.forall₂_imp_mem isFields fun id member field stands => ?_).flip
      obtain ⟨entry, known, sameType, -⟩ := stands
      have isTyped := (typed id (run.claimed_eq ▸ member) known).extends run.extended
      rwa [← sameType] at isTyped
    have zerosTyped : Layout.HaveValues threaded.program.tables fields
        (fields.map fun field => threaded.program.tables.zero field.type) := by
      rw [Layout.HaveValues, List.forall₂_map_right_iff, List.forall₂_same]
      exact fun field member => later.hasValue_zero
        (Nat.lt_of_lt_of_le (isFields.inside field member) run.extended.size_types)
    simp only [toInternal, Conversion.target, Conversion.source, encodes,
      later.zero_struct internal]
    exact Layout.writeAll_toInternal filled lays.placed (Layout.order_perm rules placements)
      internal sound reads valuesTyped zerosTyped
  · have sameTypes : ∀ placement ∈ Layout.order rules placements,
        placement.field.type = placement.type := by
      intro placement member
      obtain ⟨-, -, -, -, -, retypes⟩ := lays.placed.holds placement (Layout.mem_order.mp member)
      simpa [Layout.Retypes, narrow] using retypes
    simp only [toExternal, Conversion.target, Conversion.source, encodes, later.zero_struct external]
    exact Layout.writeAll_same sameTypes (by simp)

/-- What a conversion writes starts as the zero of its struct. -/
theorem Converts.initial_target {first : Nat} (converts : run.Converts outer rules first) :
    threaded.program.tables.initial (rules.conversion.target ⟨first⟩ ⟨first + 1⟩) =
      threaded.program.tables.zero
        (rules.conversion.target run.gathering.internal outer.struct) := by
  cases rules.conversion with
  | toExternal => simp [Conversion.target, Tables.initial, converts.external, Layout.convertEntry]
  | toInternal => simp [Conversion.target, Tables.initial, converts.internal, Layout.convertEntry]

/-- The parameters of a conversion function are copied. -/
theorem Converts.plain {first : Nat} (converts : run.Converts outer rules first) :
    ∀ id ∈ [rules.conversion.source (⟨first⟩ : VariableId) ⟨first + 1⟩,
        rules.conversion.target ⟨first⟩ ⟨first + 1⟩],
      threaded.program.tables.isReference id = false ∧
        threaded.program.tables.isGlobal id = false := by
  refine Conversion.sides ?_ ?_ _
  · simp [Tables.isReference, Tables.isGlobal, converts.internal, Layout.convertEntry]
  · simp [Tables.isReference, Tables.isGlobal, converts.external, Layout.convertEntry]

variable (run)

/-- The parameters of a conversion function are new. -/
theorem convert_params_new (rules : LayoutRules) :
    ∀ id ∈ [rules.conversion.source (⟨run.gather.middle.vars.size⟩ : VariableId)
        ⟨run.gather.middle.vars.size + 1⟩, rules.conversion.target ⟨run.gather.middle.vars.size⟩
          ⟨run.gather.middle.vars.size + 1⟩], ¬ Old shader id := by
  obtain ⟨-, grows, -⟩ := run.gather.internal run.orderly.sound run.orderly.closed
  refine Conversion.sides ?_ ?_ _ <;> simp [Old, grows.sameVars]

/-- Calling the conversion function converts one layout into the other. Apart from what it writes
to, it changes only its own frame, and there old variables hold what they hold at first. -/
theorem call_converts {sizes : Nat → Prop} (grounded : shader.program.Grounded sizes)
    (bounded : ∀ size, sizes size → 0 < size ∧ size < 2 ^ 31)
    (hasRules : category.layoutRules = some rules) (isOuter : run.gathering.outer = some outer)
    {interp : Interpretation} {values : VariableId → Value}
    (readable : category.isOut = false → shader.HasValues category values ∧
      (rules.widenBools = true → interp.ReadsTruth shader.program.tables))
    (fuel : Nat) (origin : Option Place) {root : Root} (held : Value)
    (outside : ∀ id, root ≠ .frame 1 id) (store : Store) :
    ∃ after, threaded.program.call interp (fuel + 1) 1 outer.convert
        [⟨origin, rules.conversion.source (.aggregate (run.gathering.members.map values))
          (shader.encode category rules values)⟩, ⟨some ⟨root, []⟩, held⟩] store =
          some (some default, after) ∧
      after root = rules.conversion.target (.aggregate (run.gathering.members.map values))
        (shader.encode category rules values) ∧
      (∀ id, Old shader id → after (.frame 1 id) = shader.program.tables.initial id) ∧
      ∀ other, other ≠ root → (∀ id, other ≠ .frame 1 id) → after other = store other := by
  have filled := fun size isSize => (bounded size isSize).1
  have later : threaded.program.tables.Acyclic := run.result_acyclic grounded fun _ => filled
  have sized : threaded.program.tables.Sized fun size => 0 < size ∧ size < 2 ^ 31 := fun known =>
    bounded _ (run.result_sized grounded (fun _ => filled) known)
  obtain ⟨fields, placements, lays⟩ := run.lays grounded filled hasRules isOuter
  obtain ⟨others, converts⟩ := run.converts isOuter
  obtain rfl : others = rules := Option.some.inj (converts.hasRules.symm.trans hasRules)
  have few : ∀ placement ∈ Layout.order others placements,
      ∀ element ∈ placement.position, element < 2 ^ 31 := fun placement member =>
    lays.placed.small (fun known => (sized known).2) placement (Layout.mem_order.mp member)
  obtain ⟨after, calls, ends, clears, keeps⟩ := Program.call_puts converts.function
    (Program.body?_of_mem run.result_once lays.body) (Layout.convertParams_eq _ _ _)
    (by cases others.conversion <;> simp [Conversion.source, Conversion.target]) converts.plain
    (fun setting isInterp findsSource findsTarget =>
      isInterp ▸ Layout.convertBody_puts findsSource findsTarget (fun known => (sized known).2) few)
    fuel origin held outside store
  refine ⟨after, calls, ?_, fun id isOld => ?_, keeps⟩
  · rw [ends, converts.initial_target]
    refine lays.writes hasRules grounded.acyclic later (run.result_sound grounded fun _ => filled)
      (fun known => (sized known).1) fun isIn => ?_
    obtain ⟨typed, reads⟩ := readable isIn
    obtain ⟨grown, grows, adds, -⟩ := run.grown grounded fun _ => filled
    exact ⟨typed, fun widens => (reads widens).since fun there =>
      grows.entry (adds.sameTypes ▸ there)⟩
  · have apart {other : VariableId} (isNew : ¬ Old shader other) : id ≠ other := by
      rintro rfl
      exact isNew isOld
    have news := run.convert_params_new others
    rw [clears id (apart (news _ (by simp))) (apart (news _ (by simp)))]
    exact run.extended.initial grounded.acyclic grounded.closed isOld

end CategoryRun

end ShaderPipeline
