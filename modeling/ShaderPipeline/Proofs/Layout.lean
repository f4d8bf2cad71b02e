import ShaderPipeline.Proofs.Placing

/-!
# The bridge to the external layout

What making a bridge adds to the tables: the external struct over the placed
fields, the two parameters of its conversion function, and that function. A struct
whose fields have places can be given an external layout, and there is no bridge
exactly if every field stays as it is.
-/

namespace ShaderPipeline

namespace Layout

variable {tables before middle after : Tables} {sizes : Nat → Prop} {rules : LayoutRules}

/-! ## The bridge -/

/-- The parameter of a conversion function that holds one of the two structs. -/
def convertEntry (text : String) (struct : TypeId) : Variable where
  name := .temporary text
  type := struct
  scope := .parameter

/-- The signature of a conversion function whose parameters are the next two variables. -/
def convertFunction (conversion : Conversion) (name : Name) (first : Nat) : Function where
  name := convertName conversion name
  params := convertParams conversion ⟨first⟩ ⟨first + 1⟩
  returnType := .void
  returnPrecision := .notApplicable

/-- A conversion function is never the entry point. -/
theorem convertFunction_isMain (conversion : Conversion) (name : Name) (first : Nat) :
    (convertFunction conversion name first).isMain = false := by
  have longer (suffix : String) (long : 4 < suffix.length) :
      (name.text ++ suffix == Function.mainText) = false := by
    simp only [beq_eq_false_iff_ne]
    intro same
    have lengths := congrArg String.length same
    rw [String.length_append] at lengths
    have short : Function.mainText.length = 4 := rfl
    omega
  cases conversion with
  | toExternal =>
    simp [convertFunction, convertName, Function.isMain, Name.exact,
      longer "_fromOriginal" (by decide)]
  | toInternal =>
    simp [convertFunction, convertName, Function.isMain, Name.exact,
      longer "_toOriginal" (by decide)]

/-- The bridge from a struct to its external layout, and the tables that hold it. -/
structure Bridges (before : Tables) (rules : LayoutRules) (struct : TypeId) (name : Name)
    (placements : List Placement) (bridge : Bridge) (after : Tables) : Prop where
  new : before.types.size ≤ bridge.struct.index
  external : after.types[bridge.struct.index]? =
    some (.struct name ((order rules placements).map Placement.field))
  vars : after.vars = (before.addVariables
    [convertEntry "original" struct, convertEntry "modified" bridge.struct]).vars
  functions : after.functions =
    before.functions.push (convertFunction rules.conversion name before.vars.size)
  function : bridge.function = ⟨before.functions.size⟩
  body : bridge.body = convertBody after rules.conversion ⟨before.vars.size⟩
    ⟨before.vars.size + 1⟩ (order rules placements)

end Layout

namespace Tables

variable {tables before middle after : Tables}

/-- Widening truth values makes nothing but types. -/
theorem widenBools_makes {type wide : TypeId} (made : tables.widenBools type = .ok (wide, after)) :
    tables.MakesTypes after := by
  simp only [widenBools, Outcome.bind_eq_ok_iff] at made
  obtain ⟨base, -, made⟩ := made
  split at made
  case h_1 =>
    obtain rfl : _ = after := congrArg Prod.snd (Except.ok.inj made)
    exact arrayOver_makes _ _
  case h_2 component size =>
    split at made
    · simp only [Outcome.bind_eq_ok_iff] at made
      obtain ⟨wideBase, -, made⟩ := made
      obtain rfl : _ = after := congrArg Prod.snd (Except.ok.inj made)
      exact arrayOver_makes _ _
    · obtain rfl : tables = after := congrArg Prod.snd (Except.ok.inj made)
      exact .nothing
  case h_3 =>
    obtain rfl : tables = after := congrArg Prod.snd (Except.ok.inj made)
    exact .nothing

/-- A declared variable is the one new variable. -/
theorem declare_inv {entry : Variable} {id : VariableId}
    (made : tables.declare entry = .ok (id, after)) :
    id = ⟨tables.vars.size⟩ ∧ after = tables.addVariables [entry] := by
  simp only [declare, Outcome.bind_eq_ok_iff, Outcome.pure_eq_ok, Except.ok.injEq,
    Prod.mk.injEq] at made
  obtain ⟨type, -, -, -, rfl, rfl⟩ := made
  exact ⟨rfl, by simp [addVariables]⟩

end Tables

namespace Invariance

@[simp] theorem insertFields_vars (invariance : Invariance) (struct : TypeId) (chosen : List Nat) :
    (invariance.insertFields struct chosen).vars = invariance.vars := by
  unfold insertFields
  induction chosen generalizing invariance with
  | nil => rfl
  | cons position chosen inductionHypothesis =>
    exact inductionHypothesis (invariance.insertField struct position)

end Invariance

namespace Layout

variable {tables after : Tables} {rules : LayoutRules}

/-- Placing a field makes nothing but types. -/
theorem placeField_makes {source : Nat} {field : Field} {placements : List Placement}
    (made : placeField tables rules source field = .ok (placements, after)) :
    tables.MakesTypes after := by
  simp only [placeField, Outcome.bind_eq_ok_iff] at made
  obtain ⟨shape, -, made⟩ := made
  split at made
  · obtain rfl : tables = after := congrArg Prod.snd (Except.ok.inj made)
    exact .nothing
  · simp only [Outcome.bind_eq_ok_iff] at made
    obtain ⟨⟨external, grown⟩, typed, made⟩ := made
    obtain rfl : grown = after := congrArg Prod.snd (Except.ok.inj made)
    unfold partType at typed
    split at typed
    · exact Tables.widenBools_makes typed
    · obtain rfl : tables = grown := congrArg Prod.snd (Except.ok.inj typed)
      exact .nothing

/-- So does placing several. -/
theorem placeFields_makes {source : Nat} {fields : List Field} {placements : List Placement}
    (made : placeFields tables rules fields source = .ok (placements, after)) :
    tables.MakesTypes after := by
  induction fields generalizing tables source placements with
  | nil =>
    obtain rfl : tables = after := congrArg Prod.snd (Except.ok.inj made)
    exact .nothing
  | cons field fields inductionHypothesis =>
    obtain ⟨_, _, _, firstOk, restOk, -⟩ := placeFields_cons_inv made
    exact (placeField_makes firstOk).trans (inductionHypothesis restOk)

/-- Positions depend on the types only, so a conversion does. -/
theorem convertBody_congr {before after : Tables} (same : after.types = before.types)
    (conversion : Conversion) (internal external : VariableId) (placements : List Placement) :
    convertBody after conversion internal external placements =
      convertBody before conversion internal external placements := by
  have copies : @copy after = @copy before := by
    funext target targetType value valueType
    simp only [copy, Tables.shapeOf_congr same]
  have converts : convertField after = convertField before := by
    funext conversion internal external place placement
    simp only [convertField, copies]
  simp only [convertBody, converts]

/-- What creating a conversion function adds. -/
theorem createConversion_inv {conversion : Conversion} {internal external : TypeId} {name : Name}
    {placements : List Placement} {function : FunctionId} {body : Block}
    (made : createConversion tables conversion internal external name placements =
      .ok ((function, body), after)) :
    tables.Adds after ∧ after.vars = (tables.addVariables
        [convertEntry "original" internal, convertEntry "modified" external]).vars ∧
      after.functions = tables.functions.push (convertFunction conversion name tables.vars.size) ∧
      function = ⟨tables.functions.size⟩ ∧
      body = convertBody after conversion ⟨tables.vars.size⟩ ⟨tables.vars.size + 1⟩ placements := by
  simp only [createConversion, Outcome.bind_eq_ok_iff, Outcome.pure_eq_ok, Except.ok.injEq] at made
  obtain ⟨⟨first, one⟩, firstOk, ⟨second, two⟩, secondOk, made⟩ := made
  obtain ⟨rfl, rfl⟩ := Tables.declare_inv firstOk
  obtain ⟨rfl, rfl⟩ := Tables.declare_inv secondOk
  simp only [Prod.mk.injEq] at made
  obtain ⟨⟨rfl, rfl⟩, rfl⟩ := made
  refine ⟨?_, ?_, ?_, rfl, ?_⟩
  · exact ((Tables.addVariables_adds _).trans (Tables.addVariables_adds _)).trans
      (Tables.addFunction_adds _)
  · rw [Tables.addVariables_addVariables]
    rfl
  · simp [Tables.addFunction, Tables.addVariables, convertFunction]
  · simp only [Tables.size_vars_addVariables]
    refine (convertBody_congr ?_ _ _ _ _).symm
    rfl

/-- A conversion function between types in use can be made. -/
theorem createConversion_ok (conversion : Conversion) {internal external : TypeId} (name : Name)
    (placements : List Placement) (internalUsed : tables.InUse internal)
    (externalUsed : tables.InUse external) :
    ∃ made, createConversion tables conversion internal external name placements = .ok made := by
  have first := Tables.declare_eq (convertEntry "original" internal) internalUsed
  have second := @Tables.declare_eq (tables.addVariables [convertEntry "original" internal])
    (convertEntry "modified" external) externalUsed
  simp only [convertEntry] at first second
  exact ⟨_, by simp only [createConversion, first, second, Outcome.ok_bind]; rfl⟩

/-- A struct whose fields have at least one place can be given its external layout. -/
theorem createBridge_of_places (invariance : Invariance) {grown : Tables} {struct : TypeId}
    {structName : Name} {fields : List Field} {placements : List Placement}
    (known : tables.types[struct.index]? = some (.struct structName fields))
    (placesOk : placeFields tables rules fields 0 = .ok (placements, grown))
    (somePlaces : placements ≠ []) (name : Name) :
    ∃ made, tables.createBridge invariance rules struct name = .ok made := by
  have fieldsOk := Tables.fieldsOf_eq_ok_iff.mpr ⟨structName, known⟩
  have grows := (placeFields_makes placesOk).registers
  simp only [Tables.createBridge, fieldsOk, placesOk, Outcome.ok_bind]
  split
  · exact ⟨_, rfl⟩
  · have someOrdered : ensure (!((order rules placements).map Placement.field).isEmpty) =
        .ok () := by
      have ordered : order rules placements ≠ [] := fun empty =>
        somePlaces (List.Perm.nil_eq (empty ▸ order_perm rules placements)).symm
      simp [ensure, ordered]
    simp only [Tables.createStruct, someOrdered, Outcome.ok_bind, Outcome.pure_eq_ok]
    have structs := @Tables.addStruct_types grown name
      ((order rules placements).map Placement.field)
    obtain ⟨made, converted⟩ := createConversion_ok rules.conversion name (order rules placements)
      ⟨_, (Tables.addStruct_extends _ _).types (grows.types known), rfl⟩ ⟨_, structs, rfl⟩
    exact ⟨_, by rw [converted]; rfl⟩

/-- A struct over known types, with at least one field, can be given its external layout. -/
theorem createBridge_ok {sizes : Nat → Prop} (invariance : Invariance) (rules : LayoutRules)
    (sound : tables.Sound) (acyclic : tables.Acyclic) (sized : tables.Sized sizes)
    (filled : ∀ size, sizes size → 0 < size) {struct : TypeId} {structName : Name}
    {fields : List Field} (known : tables.types[struct.index]? = some (.struct structName fields))
    (some : fields ≠ []) (name : Name) :
    ∃ made, tables.createBridge invariance rules struct name = .ok made := by
  have ends : ∀ field ∈ fields, tables.Ends field.type := fun field member =>
    acyclic.ends (Nat.lt_trans (acyclic known field.type (List.mem_map_of_mem member))
      (Tables.index_lt_of_getElem? known))
  obtain ⟨placements, grown, placesOk⟩ := placeFields_ok rules sound ends 0
  obtain ⟨-, somePlaces⟩ := placeFields_placed sound sized filled placesOk
  exact createBridge_of_places invariance known placesOk (somePlaces some) name

/-- What is given an external layout is a struct, and its fields have places. -/
theorem createBridge_places {invariance registry : Invariance} {struct : TypeId} {name : Name}
    {result : Option Bridge}
    (made : tables.createBridge invariance rules struct name = .ok (result, after, registry)) :
    ∃ fields placements grown, tables.fieldsOf struct = .ok fields ∧
      placeFields tables rules fields 0 = .ok (placements, grown) := by
  simp only [Tables.createBridge, Outcome.bind_eq_ok_iff] at made
  obtain ⟨fields, fieldsOk, ⟨placements, grown⟩, placesOk, -⟩ := made
  exact ⟨fields, placements, grown, fieldsOk, placesOk⟩

/-- There is no bridge exactly if every field stays as it is. -/
theorem createBridge_eq_none_iff {grown : Tables} {invariance registry : Invariance}
    {struct : TypeId} {name : Name} {result : Option Bridge} {fields : List Field}
    {placements : List Placement} (fieldsOk : tables.fieldsOf struct = .ok fields)
    (placesOk : placeFields tables rules fields 0 = .ok (placements, grown))
    (made : tables.createBridge invariance rules struct name = .ok (result, after, registry)) :
    result = none ↔ (∀ field ∈ fields, splits tables rules field = false) ∧
      (∀ placement ∈ placements, placement.field.type = placement.type) ∧
      (order rules placements).map Placement.source = placements.map Placement.source := by
  simp only [Tables.createBridge, fieldsOk, placesOk, Outcome.ok_bind] at made
  split at made
  case isTrue same =>
    obtain rfl : none = result := congrArg Prod.fst (Except.ok.inj made)
    simpa [retyped, and_assoc] using same
  case isFalse changed =>
    simp only [Outcome.bind_eq_ok_iff, Outcome.pure_eq_ok, Except.ok.injEq, Prod.mk.injEq] at made
    obtain ⟨_, -, _, -, rfl, -⟩ := made
    simpa [retyped, and_assoc] using changed

/-- A bridge that was made is one. -/
theorem createBridge_inv {invariance registry : Invariance} {struct : TypeId} {name : Name}
    {result : Option Bridge}
    (made : tables.createBridge invariance rules struct name = .ok (result, after, registry)) :
    registry.vars = invariance.vars ∧ ((result = none ∧ after = tables ∧ registry = invariance) ∨
      ∃ bridge fields placements grown, result = some bridge ∧
        tables.fieldsOf struct = .ok fields ∧
        placeFields tables rules fields 0 = .ok (placements, grown) ∧
        Bridges tables rules struct name placements bridge after ∧
        (grown.addStruct name ((order rules placements).map Placement.field)).2.Adds
          after ∧
        registry = invariance.insertFields bridge.struct
          (invariantPlaces invariance struct (order rules placements))) := by
  simp only [Tables.createBridge, Outcome.bind_eq_ok_iff] at made
  obtain ⟨fields, fieldsOk, ⟨placements, grown⟩, placesOk, made⟩ := made
  split at made
  · obtain ⟨rfl, rfl, rfl⟩ : none = result ∧ tables = after ∧ invariance = registry := by
      simpa using made
    exact ⟨rfl, .inl ⟨rfl, rfl, rfl⟩⟩
  · simp only [Outcome.bind_eq_ok_iff, Tables.createStruct, Outcome.pure_eq_ok,
      Except.ok.injEq, Prod.mk.injEq] at made
    obtain ⟨⟨external, withStruct⟩, ⟨⟨⟩, -, structOk⟩, ⟨⟨function, body⟩, last⟩, converted,
      rfl, rfl, rfl⟩ := made
    obtain ⟨adds, vars, functions, function, body⟩ := createConversion_inv converted
    have registers := (placeFields_makes placesOk).registers
    have known := @Tables.addStruct_types grown name
      ((order rules placements).map Placement.field)
    have sameVars : withStruct.vars = tables.vars := by
      rw [← registers.sameVars]
      exact congrArg (·.2.vars) structOk.symm
    have sameFunctions : withStruct.functions = tables.functions := by
      rw [← registers.sameFunctions]
      exact congrArg (·.2.functions) structOk.symm
    rw [structOk] at known
    rw [Tables.addVariables, sameVars] at vars
    rw [sameVars] at functions body
    rw [sameFunctions] at functions function
    have new : tables.types.size ≤ external.index := by
      obtain rfl : _ = external := congrArg Prod.fst structOk
      exact registers.size_types
    refine ⟨by simp, .inr ⟨_, fields, placements, grown, rfl, fieldsOk, placesOk,
      ⟨new, adds.types known, vars, functions, function, body⟩, ?_, rfl⟩⟩
    rw [structOk]
    exact adds

end Layout

end ShaderPipeline
