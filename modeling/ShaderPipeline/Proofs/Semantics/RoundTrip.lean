import ShaderPipeline.Proofs.RequiredLayout
import ShaderPipeline.Proofs.Semantics.Conversion

/-!
# Converting there and back

A bridge can be made in either direction. `Bridge.convert?` runs the body of the
conversion function by itself, from any value of what it writes, and
`Bridge.CoversOnce` says which parts the statements of the body assign. Converting
a struct to the external layout and back gives the struct again, and each way every
part is assigned once.
-/

namespace ShaderPipeline

/-! ## What is assigned -/

/-- The part of a variable that an expression stands for, if fields and constant positions lead
there. -/
def Expr.partOf (id : VariableId) : Expr → Option (List Nat)
  | .var other => if other = id then some [] else none
  | .field base position => (base.partOf id).map (· ++ [position])
  | .index base (.const position) => do
    let path ← base.partOf id
    let element ← (Value.scalar position).position?
    return path ++ [element]
  | _ => none

/-- The part of a variable that a statement assigns. -/
def Stmt.assigned? (id : VariableId) : Stmt → Option (List Nat)
  | .assign target _ => target.partOf id
  | _ => none

namespace Bridge

/-- What the conversion function reads and what it writes. -/
def sides? (bridge : Bridge) (tables : Tables) : Option (VariableId × VariableId) :=
  match tables.functions[bridge.function.index]?.map Function.params with
  | some [⟨source, .input⟩, ⟨target, .output⟩] => some (source, target)
  | _ => none

/-- The body assigns parts of what the function writes, a value of the given type, and does nothing
else. No part is assigned twice, and none is left out. -/
def CoversOnce (bridge : Bridge) (tables : Tables) (type : TypeId) : Prop :=
  ∃ source target paths, bridge.sides? tables = some (source, target) ∧
    List.Forall₂ (fun stmt path => stmt.assigned? target = some path) bridge.body paths ∧
    tables.CoveredOnce type paths

/-- What the function has written when its body was run on a value, where something else was
before. -/
def convert? (interp : Interpretation) (bridge : Bridge) (tables : Tables) (given before : Value) :
    Option Value := do
  let (source, target) ← bridge.sides? tables
  let empty : Store := fun _ => default
  let store := (empty.write ⟨.frame 0 source, []⟩ given).write ⟨.frame 0 target, []⟩ before
  match (tables.frame interp 0 0 [] fun _ _ => Run.exhausted).execAll bridge.body store with
  | some (some .next, after) => some (after (.frame 0 target))
  | _ => none

/-- Two bridges that lead to the same external struct and from there back, each in tables of its
own. -/
structure RoundTrips (tables : Tables) (struct : TypeId) (out : Bridge) (outTables : Tables)
    (back : Bridge) (backTables : Tables) : Prop where
  sameStruct : out.struct = back.struct
  sameTypes : outTables.types = backTables.types
  coversExternal : out.CoversOnce outTables out.struct
  coversInternal : back.CoversOnce backTables struct
  /-- Whatever the structs held before, the value that was converted comes back. -/
  restores : ∀ interp : Interpretation, interp.ConvertsTruth tables → ∀ value outer inner : Value,
    tables.HasValue struct value → outTables.HasValue out.struct outer →
      tables.HasValue struct inner → ∃ encoded, out.convert? interp outTables value outer =
        some encoded ∧ outTables.HasValue out.struct encoded ∧
          back.convert? interp backTables encoded inner = some value

end Bridge

namespace Layout

variable {tables before after : Tables} {rules : LayoutRules}

/-- Where the parts of one external field are written. -/
def fieldPaths (tables : Tables) : Conversion → Nat → Placement → List (List Nat)
  | .toExternal, place, placement => placement.outerPaths tables place
  | .toInternal, _, placement => placement.innerPaths tables

/-- Selecting an element by constant positions goes on along the path. -/
theorem partOf_atPosition {id : VariableId} {expr : Expr} {path : List Nat}
    (stands : expr.partOf id = some path) {position : List Nat}
    (small : ∀ element ∈ position, element < 2 ^ 31) :
    (expr.atPosition position).partOf id = some (path ++ position) := by
  induction position generalizing expr path with
  | nil => simpa [Expr.atPosition] using stands
  | cons element position inductionHypothesis =>
    rw [List.forall_mem_cons] at small
    have inside : (Expr.index expr (.int element)).partOf id = some (path ++ [element]) := by
      simp [Expr.partOf, Expr.int, stands, Value.position?, Int32.toInt_ofNat_of_lt small.1]
    have goesOn := inductionHypothesis inside small.2
    rwa [List.append_assoc, List.singleton_append] at goesOn

/-- Copying a part assigns it. -/
theorem copy_assigned {id : VariableId} {into : Expr} {path : List Nat}
    (stands : into.partOf id = some path) (targetType : TypeId) (part : Expr) (valueType : TypeId)
    (small : tables.Sized (· < 2 ^ 31)) :
    List.Forall₂ (fun stmt path => stmt.assigned? id = some path)
      (copy tables into targetType part valueType)
      ((copyPaths tables targetType valueType).map (path ++ ·)) := by
  unfold copy copyPaths
  split
  · exact .cons (by simpa [Stmt.assigned?] using stands) .nil
  · have extents := small.shapeOf targetType
    simp only [counted_eq extents]
    rw [List.forall₂_map_left_iff, List.forall₂_map_right_iff, List.forall₂_same]
    intro position member
    exact partOf_atPosition stands
      (small_of_mem_positions (fun extent own => Nat.le_of_lt (extents extent own)) member)

/-- The body of a conversion function assigns the parts of all fields. -/
theorem convertBody_assigned {conversion : Conversion} {internal external : VariableId}
    (small : tables.Sized (· < 2 ^ 31)) {placements : List Placement}
    (few : ∀ placement ∈ placements, ∀ element ∈ placement.position, element < 2 ^ 31) :
    List.Forall₂
      (fun stmt path => stmt.assigned? (conversion.target internal external) = some path)
      (convertBody tables conversion internal external placements)
      (placements.mapIdx (fieldPaths tables conversion)).flatten := by
  refine forall₂_flatten_mapIdx fun place placement member => ?_
  have field (id : VariableId) (position : Nat) :
      (Expr.field (.var id) position).partOf id = some [position] := by
    simp [Expr.partOf]
  cases conversion with
  | toExternal =>
    exact copy_assigned (field external place) placement.field.type _ placement.type small
  | toInternal =>
    exact copy_assigned (partOf_atPosition (field internal placement.source) (few placement member))
      placement.type _ placement.field.type small

/-! ## Running the body of a bridge -/

section Running

variable {struct : TypeId} {name : Name} {placements : List Placement} {bridge : Bridge}
  (bridges : Bridges before rules struct name placements bridge after)

include bridges

/-- A bridge reads one of its two parameters and writes the other, as its conversion says. -/
theorem Bridges.sides?_eq : bridge.sides? after = some
    (rules.conversion.source ⟨before.vars.size⟩ ⟨before.vars.size + 1⟩,
      rules.conversion.target ⟨before.vars.size⟩ ⟨before.vars.size + 1⟩) := by
  simp only [Bridge.sides?, bridges.function, bridges.functions, Array.getElem?_push_size,
    Option.map_some, convertFunction, convertParams_eq]

/-- Both parameters are variables in the frame of the call. -/
theorem Bridges.locate_eq :
    ∀ id ∈ [rules.conversion.source (⟨before.vars.size⟩ : VariableId) ⟨before.vars.size + 1⟩,
        rules.conversion.target ⟨before.vars.size⟩ ⟨before.vars.size + 1⟩],
      after.locate 0 [] id = ⟨.frame 0 id, []⟩ := by
  refine Conversion.sides ?_ ?_ _
  · simp [Tables.locate, Tables.isGlobal, bridges.vars, Tables.addVariables, convertEntry]
  · simp [Tables.locate, Tables.isGlobal, bridges.vars, Tables.addVariables, convertEntry]

/-- Running the body writes the parts of all fields. -/
theorem Bridges.convert?_eq (interp : Interpretation) (small : after.Sized (· < 2 ^ 31))
    (few : ∀ placement ∈ order rules placements, ∀ element ∈ placement.position, element < 2 ^ 31)
    (given value : Value) : bridge.convert? interp after given value = some (value.writeAll
      ((order rules placements).mapIdx
        (fieldWrites interp after rules.conversion given)).flatten) := by
  have findsSource := bridges.locate_eq _ List.mem_cons_self
  have findsTarget := bridges.locate_eq _ (List.mem_cons_of_mem _ List.mem_cons_self)
  have apart : rules.conversion.source (⟨before.vars.size⟩ : VariableId) ⟨before.vars.size + 1⟩ ≠
      rules.conversion.target ⟨before.vars.size⟩ ⟨before.vars.size + 1⟩ := by
    cases rules.conversion <;> simp [Conversion.source, Conversion.target]
  have puts := @convertBody_puts (after.frame interp 0 0 [] fun _ _ => Run.exhausted) after given
    rules.conversion _ _ _ _ findsSource findsTarget small _ few
  simp only [Bridge.convert?, bridges.sides?_eq, Option.bind_eq_bind, Option.bind_some]
  generalize isStore : (Store.write _ _ value : Store) = store
  have holds : store (.frame 0 (rules.conversion.source ⟨before.vars.size⟩
      ⟨before.vars.size + 1⟩)) = given := by
    rw [← isStore, Store.write_of_ne _ _ (by simpa using apart), Store.write_root]
  have was : store (.frame 0 (rules.conversion.target ⟨before.vars.size⟩
      ⟨before.vars.size + 1⟩)) = value := by
    rw [← isStore, Store.write_root]
  obtain ⟨done, runs, -, ends⟩ := Setting.execAll_puts (by simpa using apart) puts holds
  rw [bridges.body, runs]
  exact congrArg some (ends.trans (by rw [was]; rfl))

end Running

/-! ## Both directions -/

/-- Where the parts go does not depend on the direction. -/
theorem placeFields_conversion (conversion : Conversion) (fields : List Field) (source : Nat) :
    placeFields tables { rules with conversion } fields source =
      placeFields tables rules fields source := by
  induction fields generalizing tables source with
  | nil => rfl
  | cons field fields inductionHypothesis =>
    have first : placeField tables { rules with conversion } source field =
        placeField tables rules source field := rfl
    simp only [placeFields, first, inductionHypothesis]

/-- A conversion function that can be made in one direction can be made in the other. -/
theorem createConversion_conversion {conversion : Conversion} {internal external : TypeId}
    {name : Name} {placements : List Placement} {function : FunctionId} {body : Block}
    (made : createConversion tables conversion internal external name placements =
      .ok ((function, body), after)) (other : Conversion) :
    ∃ otherBody later, createConversion tables other internal external name placements =
      .ok ((function, otherBody), later) ∧ later.types = after.types := by
  simp only [createConversion, Outcome.bind_eq_ok_iff, Outcome.pure_eq_ok, Except.ok.injEq] at made
  obtain ⟨⟨first, one⟩, firstOk, ⟨second, two⟩, secondOk, made⟩ := made
  simp only [Prod.mk.injEq] at made
  obtain ⟨⟨rfl, rfl⟩, rfl⟩ := made
  simp only [createConversion, firstOk, secondOk, Outcome.ok_bind]
  exact ⟨_, _, rfl, rfl⟩

/-- So can a bridge, to the same struct. -/
theorem createBridge_conversion {invariance registry : Invariance} {struct : TypeId} {name : Name}
    {bridge : Bridge} (made : tables.createBridge invariance rules struct name =
      .ok (some bridge, after, registry)) (conversion : Conversion) :
    ∃ other later, tables.createBridge invariance { rules with conversion } struct name =
      .ok (some other, later, registry) ∧ other.struct = bridge.struct ∧
        later.types = after.types := by
  simp only [Tables.createBridge, Outcome.bind_eq_ok_iff] at made
  obtain ⟨fields, fieldsOk, ⟨placements, grown⟩, placesOk, made⟩ := made
  split at made
  case isTrue => simp at made
  case isFalse changed =>
    simp only [Outcome.bind_eq_ok_iff, Outcome.pure_eq_ok, Except.ok.injEq, Prod.mk.injEq] at made
    obtain ⟨⟨external, withStruct⟩, structOk, ⟨⟨function, body⟩, last⟩, converted, same, rfl,
      rfl⟩ := made
    obtain rfl := Option.some.inj same
    obtain ⟨otherBody, later, otherOk, sameTypes⟩ :=
      createConversion_conversion converted conversion
    refine ⟨⟨external, function, otherBody⟩, later, ?_, rfl, sameTypes⟩
    simp only [Tables.createBridge, fieldsOk, placeFields_conversion, placesOk, Outcome.ok_bind]
    refine (if_neg changed).trans ?_
    change (grown.createStruct name ((order rules placements).map Placement.field) >>= _) = _
    rw [structOk, Outcome.ok_bind]
    change (createConversion withStruct conversion struct external name
      (order rules placements) >>= _) = _
    rw [otherOk]
    rfl

/-- A bridge that was made, in tables where everything that it depends on is known. -/
structure Laid (before : Tables) (rules : LayoutRules) (struct : TypeId) (name : Name)
    (fields : List Field) (placements : List Placement) (bridge : Bridge) (after : Tables) : Prop
    extends Bridges before rules struct name placements bridge after where
  extended : before.Extends after
  keeps : before.KeepsTypes after
  sound : after.Sound
  sized : after.Sized fun size => 0 < size ∧ size < 2 ^ 31
  internal : ∃ structName, after.types[struct.index]? = some (.struct structName fields)
  placed : PlacedFrom after rules fields 0 placements
  someParts : placements ≠ []

/-- A bridge that is made from sound tables has everything known that it depends on. -/
theorem createBridge_laid (sound : tables.Sound)
    (sized : tables.Sized fun size => 0 < size ∧ size < 2 ^ 31) {invariance registry : Invariance}
    {struct : TypeId} {name : Name} {bridge : Bridge}
    (made : tables.createBridge invariance rules struct name =
      .ok (some bridge, after, registry)) :
    ∃ fields placements grown, tables.fieldsOf struct = .ok fields ∧
      placeFields tables rules fields 0 = .ok (placements, grown) ∧
      Laid tables rules struct name fields placements bridge after := by
  obtain ⟨-, ⟨missing, -⟩ | ⟨other, fields, placements, grown, same, fieldsOk, placesOk, bridges,
    adds, -⟩⟩ := createBridge_inv made
  · cases missing
  obtain rfl := Option.some.inj same
  obtain ⟨toGrown, -⟩ := placeFields_grows sound sized placesOk
  obtain ⟨placed, someParts⟩ := placeFields_placed sound sized (fun _ both => both.1) placesOk
  obtain ⟨structName, known⟩ := Tables.fieldsOf_eq_ok_iff.mp fieldsOk
  have toAfter : grown.Extends after := (Tables.addStruct_extends _ _).trans adds.toExtends
  have extended := toGrown.toExtends.trans toAfter
  have keeps := Tables.createBridge_keepsTypes made
  refine ⟨fields, placements, grown, fieldsOk, placesOk, bridges, extended, keeps,
    keeps.sound sound, fun there => ?_, ⟨structName, extended.types known⟩, placed.extends toAfter,
    someParts ?_⟩
  · have grownSized : grown.Sized _ := toGrown.toGrows.sized sized
    rw [adds.sameTypes] at there
    exact grownSized.addStruct _ _ there
  · -- A struct without fields stays as it is.
    rintro rfl
    obtain ⟨rfl, -⟩ := Prod.mk.inj (Except.ok.inj placesOk)
    have unbridged := (createBridge_eq_none_iff fieldsOk placesOk made).mpr
      ⟨by simp, by simp, by simp [order]⟩
    cases unbridged

section Directions

variable {struct : TypeId} {name : Name} {fields : List Field} {placements : List Placement}
  {bridge : Bridge} (laid : Laid before rules struct name fields placements bridge after)

include laid

/-- The body assigns the parts of all fields. -/
theorem Laid.assigned : ∃ source target, bridge.sides? after = some (source, target) ∧
    List.Forall₂ (fun stmt path => stmt.assigned? target = some path) bridge.body
      ((order rules placements).mapIdx (fieldPaths after rules.conversion)).flatten := by
  have small := laid.placed.small fun known => (laid.sized known).2
  refine ⟨_, _, laid.toBridges.sides?_eq, ?_⟩
  rw [laid.body]
  exact convertBody_assigned (fun known => (laid.sized known).2)
    fun placement member => small placement (mem_order.mp member)

/-- Running it writes them. -/
theorem Laid.convert?_eq (interp : Interpretation) (given value : Value) :
    bridge.convert? interp after given value = some (value.writeAll
      ((order rules placements).mapIdx
        (fieldWrites interp after rules.conversion given)).flatten) := by
  have small := laid.placed.small fun known => (laid.sized known).2
  exact laid.toBridges.convert?_eq interp (fun known => (laid.sized known).2)
    (fun placement member => small placement (mem_order.mp member)) given value

/-- The external struct has a field. -/
theorem Laid.someOrdered : order rules placements ≠ [] := fun empty =>
  laid.someParts (List.Perm.nil_eq (empty ▸ order_perm rules placements)).symm

/-- So has the internal one. -/
theorem Laid.someFields : fields ≠ [] := by
  rintro rfl
  have placed := laid.placed
  cases placed
  exact laid.someParts rfl

/-- Converting to the external layout assigns every part of the external struct once. -/
theorem Laid.coversExternal (toExternal : rules.conversion = .toExternal) :
    bridge.CoversOnce after bridge.struct := by
  obtain ⟨source, target, sides, assigned⟩ := laid.assigned
  rw [toExternal] at assigned
  exact ⟨source, target, _, sides, assigned, coveredOnce_outer (fun known => (laid.sized known).1)
    laid.placed (order_perm rules placements) laid.external laid.someOrdered⟩

/-- Converting to the internal layout assigns every part of the internal struct once. -/
theorem Laid.coversInternal (toInternal : rules.conversion = .toInternal) :
    bridge.CoversOnce after struct := by
  obtain ⟨source, target, sides, assigned⟩ := laid.assigned
  obtain ⟨structName, known⟩ := laid.internal
  have covered := coveredOnce_inner (fun known => (laid.sized known).1) laid.placed
    (order_perm rules placements) known laid.someFields
  rw [← flatten_mapIdx_const] at covered
  rw [toInternal] at assigned
  exact ⟨source, target, _, sides, assigned, covered⟩

/-- The value of the internal struct is one of its fields. -/
theorem Laid.values {value : Value} (typed : before.HasValue struct value) :
    ∃ values, value = .aggregate values ∧ HaveValues after fields values := by
  obtain ⟨structName, known⟩ := laid.internal
  obtain ⟨values, rfl, each⟩ := (typed.extends laid.extended).parts known rfl
  exact ⟨values, rfl, List.forall₂_map_left_iff.mp each⟩

/-- Converting to the external layout gives the encoded parts, and they are a value of the external
struct. -/
theorem Laid.encodes (toExternal : rules.conversion = .toExternal) {interp : Interpretation}
    (converts : interp.ConvertsTruth before) {values : List Value}
    (typed : HaveValues after fields values) {outer : Value}
    (also : after.HasValue bridge.struct outer) :
    bridge.convert? interp after (.aggregate values) outer =
        some (.aggregate ((order rules placements).map (Placement.held (.aggregate values)))) ∧
      after.HasValue bridge.struct
        (.aggregate ((order rules placements).map (Placement.held (.aggregate values)))) := by
  have sameParts := order_perm rules placements
  constructor
  · rw [laid.convert?_eq, toExternal, writeAll_toExternal (fun known => (laid.sized known).1)
      laid.placed sameParts laid.external laid.someOrdered laid.sound
      (fun _ => converts.since laid.keeps.news) typed also]
  · exact hasValue_encoded laid.placed sameParts laid.external laid.sound typed

/-- Converting the encoded parts to the internal layout gives what was encoded. -/
theorem Laid.decodes (toInternal : rules.conversion = .toInternal) {interp : Interpretation}
    (reads : interp.ReadsTruth before) {values parts : List Value}
    (typed : HaveValues after fields values) (also : HaveValues after fields parts) :
    bridge.convert? interp after
        (.aggregate ((order rules placements).map (Placement.held (.aggregate values))))
        (.aggregate parts) = some (.aggregate values) := by
  obtain ⟨structName, known⟩ := laid.internal
  rw [laid.convert?_eq, toInternal, writeAll_toInternal (fun known => (laid.sized known).1)
    laid.placed (order_perm rules placements) known laid.sound
    (fun _ => reads.since laid.keeps.news) typed also]

end Directions

end Layout

namespace Session

/-- In every shader that a session can lead to, if its arrays have between one and 2³¹ - 1 elements:
whenever a struct gets an external layout, there are bridges in both directions, and going there and
back loses nothing. -/
theorem createBridge_roundTrip {stage : Stage} {shader : Shader} (reached : Reachable stage shader)
    (sized : shader.program.tables.Sized fun size => 0 < size ∧ size < 2 ^ 31)
    {invariance registry : Invariance} {rules : LayoutRules} {struct : TypeId} {name : Name}
    {bridge : Bridge} {after : Tables}
    (made : shader.program.tables.createBridge invariance rules struct name =
      .ok (some bridge, after, registry)) :
    ∃ out outTables back backTables,
      shader.program.tables.createBridge invariance { rules with conversion := .toExternal } struct
        name = .ok (some out, outTables, registry) ∧
      shader.program.tables.createBridge invariance { rules with conversion := .toInternal } struct
        name = .ok (some back, backTables, registry) ∧
      out.RoundTrips shader.program.tables struct outTables back backTables := by
  have sound := reached.sound
  obtain ⟨out, outTables, outMade, outStruct, outTypes⟩ :=
    Layout.createBridge_conversion made .toExternal
  obtain ⟨back, backTables, backMade, backStruct, backTypes⟩ :=
    Layout.createBridge_conversion made .toInternal
  obtain ⟨fields, placements, grown, fieldsOk, placesOk, outLaid⟩ :=
    Layout.createBridge_laid sound sized outMade
  obtain ⟨others, otherPlacements, otherGrown, othersOk, otherPlacesOk, backLaid⟩ :=
    Layout.createBridge_laid sound sized backMade
  obtain rfl := Except.ok.inj (fieldsOk.symm.trans othersOk)
  obtain ⟨rfl, rfl⟩ : placements = otherPlacements ∧ grown = otherGrown := by
    rw [Layout.placeFields_conversion] at placesOk otherPlacesOk
    exact Prod.mk.inj (Except.ok.inj (placesOk.symm.trans otherPlacesOk))
  refine ⟨out, outTables, back, backTables, outMade, backMade, outStruct.trans backStruct.symm,
    outTypes.trans backTypes.symm, outLaid.coversExternal rfl, backLaid.coversInternal rfl, ?_⟩
  intro interp converts value outer inner typed isOuter isInner
  obtain ⟨values, rfl, outTyped⟩ := outLaid.values typed
  obtain ⟨sameValues, same, backTyped⟩ := backLaid.values typed
  obtain rfl := Value.aggregate.inj same
  obtain ⟨parts, rfl, partsTyped⟩ := backLaid.values isInner
  obtain ⟨encodes, isEncoded⟩ := outLaid.encodes rfl converts outTyped isOuter
  exact ⟨_, encodes, isEncoded, backLaid.decodes rfl converts.toReadsTruth backTyped partsTyped⟩

end Session

/-! ## A mask there and back -/

/-- The other of a truth value and the number that holds it. -/
def Constant.converted : Constant → Constant
  | .bool holds => .uint (if holds then 1 else 0)
  | .uint number => .bool (number != 0)
  | other => other

/-- An interpretation that converts between truth values and numbers, in a vector one component at a
time. -/
def Interpretation.converting : Interpretation where
  unary _ operand := operand
  binary _ left _ := left
  construct _
    | [.scalar value] => .scalar value.converted
    | [.aggregate parts] => .aggregate (parts.map fun
      | .scalar value => .scalar value.converted
      | part => part)
    | _ => default
  sample sampler _ := sampler
  address operand := operand

/-- The interpretation converts truth values there and back. -/
theorem Interpretation.converting_convertsTruth (tables : Tables) :
    converting.ConvertsTruth tables where
  scalar _ _ := rfl
  vector _ _ _ := by simp [converting, Constant.converted]
  number _ _ := rfl
  numbers _ _ _ := by simp [converting, Constant.converted]

/-- A mask, or its complement. -/
def masked (holds : Bool) : Value :=
  let row (first : Bool) : Value := .aggregate [.scalar (.bool first), .scalar (.bool !first)]
  .aggregate [.aggregate (.replicate 4 (.scalar (.float 0x3f800000))),
    .aggregate [row holds, row !holds, row holds], .scalar (.bool holds)]

/-- Both masks are values of their struct. -/
theorem masking_hasValue (holds : Bool) : masking.program.tables.HasValue ⟨23⟩ (masked holds) := by
  have isTruth (value : Bool) : masking.program.tables.HasValue .bool (.scalar (.bool value)) :=
    .scalar rfl (.bool value)
  have isFloat : masking.program.tables.HasValue .float (.scalar (.float 0x3f800000)) :=
    .scalar rfl (.float _)
  have isRow (first : Bool) : masking.program.tables.HasValue ⟨21⟩
      (.aggregate [.scalar (.bool first), .scalar (.bool !first)]) :=
    .of_parts rfl rfl (.cons (isTruth _) (.cons (isTruth _) .nil))
  refine .of_parts rfl rfl (.cons (.of_parts rfl rfl ?_) (.cons (.of_parts rfl rfl
    (.cons (isRow _) (.cons (isRow _) (.cons (isRow _) .nil)))) (.cons (isTruth _) .nil)))
  exact .cons isFloat (.cons isFloat (.cons isFloat (.cons isFloat .nil)))

/-- What the mask may have held in the external layout. -/
def unmasked : Value :=
  .aggregate [.scalar (.uint 7), .aggregate (.replicate 4 (.scalar (.float 0))),
    .aggregate (.replicate 3 (.aggregate (.replicate 2 (.scalar (.uint 7)))))]

/-- A bridge is made for the mask, and what the mask may have held is a value of its external
struct. -/
theorem masking_bridged : ∃ bridge after,
    masking.program.tables.createBridge {} ⟨.toExternal, false, true, true⟩ ⟨23⟩ (.exact "MaskIn") =
      .ok (some bridge, after, {}) ∧ after.HasValue bridge.struct unmasked := by
  obtain ⟨bridge, after, made, struct, rows, row⟩ : ∃ bridge after,
      masking.program.tables.createBridge {} ⟨.toExternal, false, true, true⟩ ⟨23⟩
        (.exact "MaskIn") = .ok (some bridge, after, {}) ∧
      after.types[bridge.struct.index]?.bind Ty.members? = some [.uint, .vec4, ⟨25⟩] ∧
      after.types[25]? = some (.array ⟨24⟩ 3) ∧ after.types[24]? = some (.array .uint 2) :=
    ⟨_, _, rfl, rfl, rfl, rfl⟩
  have sound := (Tables.createBridge_keepsTypes made).sound masking_reachable.sound
  obtain ⟨type, known, isMade⟩ := Option.bind_eq_some_iff.mp struct
  have isNumber : after.HasValue .uint (.scalar (.uint 7)) :=
    .scalar (sound.predefined rfl) (.uint 7)
  have isFloat : after.HasValue .float (.scalar (.float 0)) :=
    .scalar (sound.predefined rfl) (.float 0)
  have isRow : after.HasValue ⟨24⟩ (.aggregate [.scalar (.uint 7), .scalar (.uint 7)]) :=
    .of_parts row rfl (.cons isNumber (.cons isNumber .nil))
  refine ⟨bridge, after, made, .of_parts known isMade (.cons isNumber (.cons
    (.of_parts (sound.predefined rfl) rfl ?_) (.cons (.of_parts rows rfl
      (.cons isRow (.cons isRow (.cons isRow .nil)))) .nil)))⟩
  exact .cons isFloat (.cons isFloat (.cons isFloat (.cons isFloat .nil)))

/-- The mask comes back, also where its complement was. -/
theorem Session.createBridge_roundTrip_masking :
    Reachable .fragment masking ∧
    (masking.program.tables.Sized fun size => 0 < size ∧ size < 2 ^ 31) ∧
    Interpretation.converting.ConvertsTruth masking.program.tables ∧
    ∃ out outTables back backTables encoded,
      masking.program.tables.createBridge {} ⟨.toExternal, false, true, true⟩ ⟨23⟩
        (.exact "MaskIn") = .ok (some out, outTables, {}) ∧
      masking.program.tables.createBridge {} ⟨.toInternal, false, true, true⟩ ⟨23⟩
        (.exact "MaskIn") = .ok (some back, backTables, {}) ∧
      outTables.HasValue out.struct unmasked ∧
      out.convert? .converting outTables (masked true) unmasked = some encoded ∧
      back.convert? .converting backTables encoded (masked false) = some (masked true) := by
  have sized : masking.program.tables.Sized fun size => 0 < size ∧ size < 2 ^ 31 := by
    intro index element size there
    have types : masking.program.tables.types = (predefinedTypes ++
        [.array .bool 2, .array ⟨21⟩ 3, .struct (.exact "Mask") maskFields] : List Ty).toArray := rfl
    rw [types] at there
    have among := Array.mem_of_getElem? there
    simp only [predefinedTypes, List.mem_toArray, List.mem_append, List.mem_cons, Ty.array.injEq,
      reduceCtorEq, List.not_mem_nil, or_false, false_or] at among
    obtain ⟨-, rfl⟩ | ⟨-, rfl⟩ := among <;> decide
  have converts := Interpretation.converting_convertsTruth masking.program.tables
  obtain ⟨bridge, after, made, typed⟩ := masking_bridged
  obtain ⟨out, outTables, back, backTables, outMade, backMade, trips⟩ :=
    createBridge_roundTrip masking_reachable sized made
  obtain ⟨rfl, rfl⟩ : bridge = out ∧ after = outTables := by simpa using made.symm.trans outMade
  obtain ⟨encoded, encodes, -, decodes⟩ := trips.restores _ converts _ _ _
    (masking_hasValue true) typed (masking_hasValue false)
  exact ⟨masking_reachable, sized, converts, bridge, after, back, backTables, encoded, outMade,
    backMade, typed, encodes, decodes⟩

end ShaderPipeline
