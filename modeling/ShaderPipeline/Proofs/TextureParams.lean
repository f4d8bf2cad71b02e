import Mathlib.Algebra.Group.Nat.Defs
import ShaderPipeline.Proofs.Composition
import ShaderPipeline.Proofs.Flattening
import ShaderPipeline.Proofs.TextureEntry

/-!
# The parameters of samplers

What the entry point takes for the textures is said here in terms of the shader
before: every sampler that was claimed, and every element of a flat array of
them, gets a texture and a sampling state. `Sampler.Connected` says that the
parameters, the statements that point the texture environments at them and the
recorded names agree sampler by sampler.
-/

namespace ShaderPipeline

/-! ## Samplers of a shader -/

/-- One sampler among the variables that the textures category claims. -/
structure Sampler where
  /-- The place of its variable among the claimed ones. -/
  position : Nat
  name : Name
  /-- Its place in the array, if the variable is one. -/
  element : Option Nat
  kind : ImageKind
deriving DecidableEq

namespace Sampler

/-- The samplers of a variable, in order. -/
def ofVariable (tables : Tables) (position : Nat) (entry : Variable) : List Sampler :=
  match tables.types[entry.type.index]? with
  | some (.image kind) => [⟨position, entry.name, none, kind⟩]
  | some (.array element size) =>
    match tables.types[element.index]? with
    | some (.image kind) =>
      (List.range size).map fun place => ⟨position, entry.name, some place, kind⟩
    | _ => []
  | _ => []

/-- The samplers of several variables, in order. -/
def ofVariables (tables : Tables) (ids : List VariableId) : List Sampler :=
  (ids.mapIdx fun position id =>
    match tables.vars[id.index]? with
    | some entry => ofVariable tables position entry
    | none => []).flatten

/-- The name of the parameter for one half of a sampler. -/
def paramName (sampler : Sampler) (half : String) : Name :=
  { sampler.name with
    text := match sampler.element with
      | none => sampler.name.text ++ "_" ++ half
      | some place => sampler.name.text ++ "_" ++ half ++ "_" ++ toString place }

/-- The part of an instance that stands for a sampler: the field of its variable, or the element of
that field. -/
inductive Env (holder : VariableId) : Sampler → Expr → Prop where
  | single {position : Nat} {name : Name} {kind : ImageKind} :
      Env holder ⟨position, name, none, kind⟩ (.field (.var holder) position)
  | element {position place : Nat} {name : Name} {kind : ImageKind} {index : Int32}
      (same : index.toInt = place) :
      Env holder ⟨position, name, some place, kind⟩
        (.index (.field (.var holder) position) (.const (.int index)))

end Sampler

/-- The samplers that the textures category claims. -/
def Shader.samplers (shader : Shader) : List Sampler :=
  Sampler.ofVariables shader.program.tables (shader.claimed .textures none)

/-- The statement points the field of a texture environment with the given name at a parameter, and
the field is a pointer to the parameter's very type. -/
structure Tables.Points (tables : Tables) (env : Expr) (half : String) (param : Param) (name : Name)
    (type : TypeId) (stmt : Stmt) : Prop where
  input : param.direction = .input
  takes : ∃ entry, tables.vars[param.variableId.index]? = some entry ∧ entry.name = name ∧
    entry.type = type ∧ entry.scope = .parameter
  points : ∃ struct structName fields position field, tables.typeOf env = .ok struct ∧
    tables.types[struct.index]? = some (.struct structName fields) ∧
    fields[position]? = some field ∧ field.name.text = half ∧
    tables.types[field.type.index]? = some (.pointer type) ∧
    stmt = .assign (.field env position) (.addressOf (.var param.variableId))

/-- The parameters for several samplers, the statements that connect them with an instance, and the
names that are recorded for them. -/
inductive Sampler.Connected (tables : Tables) (reflection : Reflection) (holder : VariableId) :
    List Sampler → List Param → Block → Prop where
  | nil : Connected tables reflection holder [] [] []
  | cons {sampler : Sampler} {samplers : List Sampler} {texture state : Param} {params : List Param}
      {env : Expr} {type : TypeId} {toTexture toState : Stmt} {block : Block}
      (isEnv : sampler.Env holder env)
      (isTexture : tables.types[type.index]? = some (.texture sampler.kind))
      (first : tables.Points env "texture" texture (sampler.paramName "texture") type toTexture)
      (second : tables.Points env "sampler" state (sampler.paramName "sampler") .sampler toState)
      (recorded : reflection.name? texture.variableId = some sampler.name.text ∧
        reflection.name? state.variableId = some sampler.name.text)
      (rest : Connected tables reflection holder samplers params block) :
      Connected tables reflection holder (sampler :: samplers) (texture :: state :: params)
        (toTexture :: toState :: block)

/-! ## Recorded names -/

namespace Reflection

variable {reflection : Reflection} {slots : List TextureSlot} {params : List Param}

/-- The name that was recorded last is the one that is found. -/
theorem name?_record_self (id : VariableId) (name : String) :
    (reflection.record id name).name? id = some name := by
  simp [record, name?]

/-- Nothing is recorded for other variables than the parameters. -/
theorem name?_recordSlots_of_not_mem {id : VariableId} (other : id ∉ params.map Param.variableId) :
    (reflection.recordSlots slots params).name? id = reflection.name? id := by
  fun_induction recordSlots reflection slots params with
  | case1 reflection slot slots texture sampler params inductionHypothesis =>
    simp only [List.map_cons, List.mem_cons, not_or] at other
    rw [inductionHypothesis other.2.2, name?_record_of_ne other.2.1, name?_record_of_ne other.1]
  | case2 => rfl

/-- No name is recorded for the variable. -/
def Unknown (reflection : Reflection) (id : VariableId) : Prop :=
  ∀ named ∈ reflection.names, named.1 ≠ id

/-- Recording a name for a new variable makes one name more. -/
theorem Unknown.count_record {id : VariableId} (unknown : reflection.Unknown id) (name : String) :
    (reflection.record id name).count = reflection.count + 1 := by
  have kept : reflection.names.filter (fun entry => entry.1 != id) = reflection.names :=
    List.filter_eq_self.mpr fun named member => bne_iff_ne.mpr (unknown named member)
  simp [count, record, kept]

/-- Recording a name makes no other variable known. -/
theorem Unknown.record {id other : VariableId} (unknown : reflection.Unknown id)
    (different : other ≠ id) (name : String) : (reflection.record other name).Unknown id := by
  intro named member
  rcases List.mem_cons.mp member with rfl | old
  · exact different
  · exact unknown named (List.mem_filter.mp old).1

/-- One name is recorded for every parameter. -/
theorem count_recordSlots (paired : params.length = 2 * slots.length)
    (different : (params.map Param.variableId).Nodup)
    (unknown : ∀ param ∈ params, reflection.Unknown param.variableId) :
    (reflection.recordSlots slots params).count = reflection.count + params.length := by
  fun_induction recordSlots reflection slots params with
  | case1 reflection slot slots texture sampler params inductionHypothesis =>
    simp only [List.map_cons, List.nodup_cons, List.mem_cons, List.mem_map, not_or] at different
    obtain ⟨⟨apart, fromTexture⟩, fromSampler, others⟩ := different
    rw [List.forall_mem_cons, List.forall_mem_cons] at unknown
    rw [inductionHypothesis (by simp at paired ⊢; omega) others fun param member => ?_,
      (unknown.2.1.record apart _).count_record, unknown.1.count_record]
    · simp
      omega
    · refine ((unknown.2.2 param member).record (fun same => ?_) _).record (fun same => ?_) _
      · exact fromTexture ⟨param, member, same.symm⟩
      · exact fromSampler ⟨param, member, same.symm⟩
  | case2 slots reflection params short =>
    cases slots with
    | nil =>
      obtain rfl : params = [] := by simpa using paired
      rfl
    | cons slot slots =>
      match params, paired with
      | texture :: sampler :: params, _ => exact (short slot slots texture sampler params rfl rfl).elim

end Reflection

/-! ## From slots to samplers -/

namespace Sampler

variable {tables before after : Tables} {holder : VariableId}

/-- The slot stands for a sampler in an instance. -/
structure Fills (tables : Tables) (holder : VariableId) (sampler : Sampler) (slot : TextureSlot) :
    Prop where
  field : slot.field.name = sampler.name
  element : slot.element = sampler.element.toList
  isEnv : sampler.Env holder (slot.access holder)
  typed : tables.typeOf (slot.access holder) = .ok slot.env
  env : tables.IsEnv sampler.kind slot.env

/-- The parameter for a half is named after the sampler. -/
theorem Fills.paramName {sampler : Sampler} {slot : TextureSlot}
    (fills : Fills tables holder sampler slot) {half : Field} {text : String}
    (named : half.name.text = text) : slot.paramName half = sampler.paramName text := by
  cases place : sampler.element <;>
    simp [TextureSlot.paramName, Sampler.paramName, fills.field, fills.element, named, place,
      Layout.partText]

/-- The parameters of slots that stand for samplers connect these. -/
theorem connected_of_halves {samplers : List Sampler} {slots : List TextureSlot}
    {news : List Variable} {params : List Param} (start : Reflection)
    (each : List.Forall₂ (Fills tables holder) samplers slots)
    (halves : TextureSlot.Halves tables slots news)
    (added : List.Forall₂ (fun entry param =>
      tables.vars[param.variableId.index]? = some entry) news params)
    (input : ∀ param ∈ params, param.direction = .input)
    (different : (params.map Param.variableId).Nodup) :
    Connected tables (start.recordSlots slots params) holder samplers params
      (Plan.connect holder slots params) := by
  induction halves generalizing samplers params start with
  | nil =>
    cases each
    cases added
    exact .nil
  | @cons slot slots _ first second _ _ _ env firstPoints secondPoints rest inductionHypothesis =>
    obtain _ | ⟨fills, others⟩ := each
    obtain _ | ⟨textureKnown, _ | ⟨stateKnown, addedRest⟩⟩ := added
    obtain ⟨⟨isFirst, firstPointer, isTexture⟩, isSecond, secondPointer, rfl⟩ :=
      fills.env.halves env firstPoints secondPoints
    rw [List.forall_mem_cons, List.forall_mem_cons] at input
    simp only [List.map_cons, List.nodup_cons, List.mem_cons, not_or] at different
    obtain ⟨⟨apart, fromTexture⟩, fromState, differentRest⟩ := different
    refine .cons fills.isEnv isTexture ⟨input.1, ⟨_, textureKnown, fills.paramName isFirst, rfl, rfl⟩,
      slot.env, _, _, 0, first, fills.typed, env, rfl, isFirst, firstPointer, rfl⟩
      ⟨input.2.1, ⟨_, stateKnown, fills.paramName isSecond, rfl, rfl⟩,
        slot.env, _, _, 1, second, fills.typed, env, rfl, isSecond, secondPointer, rfl⟩ ⟨?_, ?_⟩
      (inductionHypothesis _ others addedRest input.2.2 differentRest)
    · rw [Reflection.recordSlots, Reflection.name?_recordSlots_of_not_mem fromTexture,
        Reflection.name?_record_of_ne apart, Reflection.name?_record_self, fills.field]
    · rw [Reflection.recordSlots, Reflection.name?_recordSlots_of_not_mem fromState,
        Reflection.name?_record_self, fills.field]

/-- The slots of a field stand for the samplers of its variable. -/
theorem fills_of_field {struct : TypeId} {name : Name} {fields : List Field} {position : Nat}
    {entry : Variable} {field : Field} (isLocal : after.IsLocal holder struct)
    (known : after.types[struct.index]? = some (.struct name fields))
    (there : fields[position]? = some field)
    (isField : Tables.FieldFor .textures before after entry field)
    (small : ∀ extents kind, before.IsSampler entry.type extents kind →
      ∀ extent ∈ extents, extent < 2 ^ 31) :
    List.Forall₂ (Fills after holder) (ofVariable before position entry)
      ((positions (after.shapeOf field.type).extents).map fun element =>
        ⟨position, field, element, (after.shapeOf field.type).base⟩) := by
  obtain ⟨_, holderKnown, isStruct, -⟩ := isLocal
  obtain ⟨env, rfl, extents, kind, base, isSampler, isEnv, envShape⟩ := isField
  have below := small extents kind isSampler
  have typed : after.typeOf (.field (.var holder) position) = .ok env :=
    Tables.typeOf_field_iff.mpr ⟨struct, name, fields, _,
      Tables.typeOf_var_iff.mpr ⟨_, holderKnown, isStruct⟩, known, there, rfl⟩
  rw [envShape.shapeOf_eq (Nat.le_of_lt envShape.length_lt)]
  obtain ⟨short, _, shape, image⟩ := isSampler
  cases shape with
  | base =>
    cases envShape
    simp only [ofVariable, image, positions, List.map_cons, List.map_nil]
    exact .cons ⟨rfl, rfl, .single, typed, isEnv⟩ .nil
  | @array _ element _ size _ array inner =>
    obtain rfl := List.eq_nil_of_length_eq_zero (Nat.le_zero.mp (Nat.le_of_succ_le_succ short))
    cases inner
    cases envShape with
    | array envArray envInner =>
      cases envInner
      have single : positions [size] = (List.range size).map fun place => [place] := by
        simp [positions, ← List.map_eq_flatMap]
      simp only [ofVariable, array, image, single, List.map_map]
      rw [List.forall₂_map_left_iff, List.forall₂_map_right_iff, List.forall₂_same]
      intro place inside
      have indexed : (Int32.ofNat place).toInt = place :=
        Int32.toInt_ofNat_of_lt (Nat.lt_trans (List.mem_range.mp inside) (below size (by simp)))
      exact ⟨rfl, rfl, .element indexed,
        Tables.typeOf_index_iff.mpr ⟨env, _, typed, envArray, rfl⟩, isEnv⟩

/-- The slots of a struct stand for the samplers of the variables that became its fields. -/
theorem fills_of_fields {struct : TypeId} {name : Name} {fields : List Field}
    {ids : List VariableId} (isLocal : after.IsLocal holder struct)
    (known : after.types[struct.index]? = some (.struct name fields))
    (isFields : List.Forall₂ (fun id field => ∃ entry, before.vars[id.index]? = some entry ∧
      Tables.FieldFor .textures before after entry field) ids fields)
    (small : ∀ id ∈ ids, ∀ {entry : Variable}, before.vars[id.index]? = some entry →
      ∀ extents kind, before.IsSampler entry.type extents kind →
        ∀ extent ∈ extents, extent < 2 ^ 31) :
    List.Forall₂ (Fills after holder) (ofVariables before ids)
      (TextureSlot.ofFields after fields) := by
  refine List.rel_flatten ?_
  rw [List.forall₂_iff_get] at isFields ⊢
  obtain ⟨sameLength, each⟩ := isFields
  refine ⟨by simp [sameLength], fun position inIds inFields => ?_⟩
  simp only [List.length_mapIdx] at inIds inFields
  obtain ⟨entry, entryKnown, isField⟩ := each position inIds inFields
  simp only [List.get_eq_getElem] at entryKnown isField
  simp only [List.get_eq_getElem, List.getElem_mapIdx, entryKnown]
  exact fills_of_field isLocal known (List.getElem?_eq_getElem inFields) isField
    (small _ (List.getElem_mem inIds) entryKnown)

end Sampler

/-! ## Names of parameters -/

/-- The names of parameters. -/
def Tables.paramNames (tables : Tables) (params : List Param) : List (Option Name) :=
  params.map fun param => (tables.vars[param.variableId.index]?).map Variable.name

namespace Sampler

variable {tables : Tables}

/-- The text is one word and no number. -/
def Word (text : String) : Prop := '_' ∉ text.toList ∧ ∃ letter ∈ text.toList, letter.isDigit = false

/-- The name of the first half is a word. -/
theorem word_texture : Word "texture" := by
  refine ⟨by simp, 't', by simp, rfl⟩

/-- So is the name of the second half. -/
theorem word_sampler : Word "sampler" := by
  refine ⟨by simp, 's', by simp, rfl⟩

/-- A text that ends in an underscore and a word tells what stands before them, and the word. -/
theorem Word.append_inj {first second half other : String} (word : Word half)
    (otherWord : Word other) (same : first ++ "_" ++ half = second ++ "_" ++ other) :
    first = second ∧ half = other := by
  have lists : first.toList ++ '_' :: half.toList = second.toList ++ '_' :: other.toList := by
    simpa using congrArg String.toList same
  obtain ⟨sameFirst, sameHalf⟩ := append_separator_inj word.1 otherWord.1 lists
  exact ⟨String.toList_injective sameFirst, String.toList_injective sameHalf⟩

/-- It does not end in an underscore and a number. -/
theorem Word.append_ne {first second half : String} (word : Word half) (place : Nat) :
    first ++ "_" ++ half ≠ second ++ "_" ++ toString place := by
  intro same
  have lists : first.toList ++ '_' :: half.toList =
      second.toList ++ '_' :: Nat.toDigits 10 place := by
    simpa [Nat.toString_eq_ofList_toDigits] using congrArg String.toList same
  obtain ⟨-, digits⟩ :=
    append_separator_inj word.1 Nat.underscore_not_in_toDigits lists
  obtain ⟨letter, inside, noDigit⟩ := word.2
  rw [digits] at inside
  simp [Nat.isDigit_of_mem_toDigits (by decide) (by decide) inside] at noDigit

/-- The name of a parameter tells the sampler and the half. -/
theorem paramName_inj {first second : Sampler} {half other : String} (word : Word half)
    (otherWord : Word other) (same : first.paramName half = second.paramName other) :
    (first.name = second.name ∧ first.element = second.element) ∧ half = other := by
  simp only [paramName, Name.mk.injEq] at same
  obtain ⟨sameText, sameSource⟩ := same
  have names (texts : first.name.text = second.name.text) : first.name = second.name := by
    cases isFirst : first.name
    cases isSecond : second.name
    simp_all
  cases isFirst : first.element with
  | none =>
    cases isSecond : second.element with
    | none =>
      simp only [isFirst, isSecond] at sameText
      obtain ⟨texts, halves⟩ := word.append_inj otherWord sameText
      exact ⟨⟨names texts, rfl⟩, halves⟩
    | some place =>
      simp only [isFirst, isSecond] at sameText
      exact absurd sameText (word.append_ne place)
  | some place =>
    cases isSecond : second.element with
    | none =>
      simp only [isFirst, isSecond] at sameText
      exact absurd sameText.symm (otherWord.append_ne place)
    | some otherPlace =>
      simp only [isFirst, isSecond] at sameText
      obtain ⟨sameStart, rfl⟩ := Layout.text_element_inj sameText
      obtain ⟨texts, halves⟩ := word.append_inj otherWord sameStart
      exact ⟨⟨names texts, rfl⟩, halves⟩

/-- The samplers of variables with different names differ in name or place. -/
theorem ofVariables_nodup {ids : List VariableId}
    (names : (ids.map fun id => (tables.vars[id.index]?).map Variable.name).Nodup) :
    ((ofVariables tables ids).map fun sampler => (sampler.name, sampler.element)).Nodup := by
  have named {position : Nat} {entry : Variable} {sampler : Sampler}
      (member : sampler ∈ ofVariable tables position entry) : sampler.name = entry.name := by
    unfold ofVariable at member
    split at member
    · simp_all
    · split at member
      · obtain ⟨place, -, rfl⟩ := List.mem_map.mp member
        rfl
      · simp at member
    · simp at member
  have apart (position : Nat) (entry : Variable) :
      (ofVariable tables position entry).Pairwise fun first second =>
        (first.name, first.element) ≠ (second.name, second.element) := by
    unfold ofVariable
    split
    · simp
    · split
      · refine List.pairwise_map.mpr (List.nodup_range.imp fun {first second} differ => ?_)
        simpa using differ
      · simp
    · simp
  refine List.pairwise_map.mpr (List.pairwise_flatten.mpr ⟨fun samplers member => ?_, ?_⟩)
  · obtain ⟨position, inside, rfl⟩ := List.mem_mapIdx.mp member
    split
    · exact apart position _
    · exact .nil
  · rw [List.pairwise_iff_getElem]
    intro place other inPlace inOther before first isFirst second isSecond same
    have differ := List.pairwise_iff_getElem.mp names place other (by simpa using inPlace)
      (by simpa using inOther) before
    simp only [List.getElem_mapIdx] at isFirst isSecond
    simp only [List.getElem_map] at differ
    split at isFirst
    case h_2 => simp at isFirst
    case h_1 entry known =>
      split at isSecond
      case h_2 => simp at isSecond
      case h_1 otherEntry otherKnown =>
        rw [known, otherKnown] at differ
        refine differ (congrArg some ?_)
        rw [← named isFirst, ← named isSecond]
        exact congrArg Prod.fst same

/-- The names of connected parameters. -/
theorem Connected.paramNames_eq {reflection : Reflection} {holder : VariableId}
    {samplers : List Sampler} {params : List Param} {block : Block}
    (connected : Connected tables reflection holder samplers params block) :
    tables.paramNames params = samplers.flatMap fun sampler =>
      [some (sampler.paramName "texture"), some (sampler.paramName "sampler")] := by
  induction connected with
  | nil => rfl
  | cons _ _ first second _ _ inductionHypothesis =>
    obtain ⟨_, firstKnown, firstName, -⟩ := first.takes
    obtain ⟨_, secondKnown, secondName, -⟩ := second.takes
    unfold Tables.paramNames at inductionHypothesis ⊢
    simp [firstKnown, firstName, secondKnown, secondName, inductionHypothesis]

/-- The parameters for different samplers have different names. -/
theorem Connected.paramNames_nodup {reflection : Reflection} {holder : VariableId}
    {samplers : List Sampler} {params : List Param} {block : Block}
    (connected : Connected tables reflection holder samplers params block)
    (different : (samplers.map fun sampler => (sampler.name, sampler.element)).Nodup) :
    (tables.paramNames params).Nodup := by
  rw [connected.paramNames_eq, List.nodup_flatMap]
  refine ⟨fun sampler _ => ?_, (List.pairwise_map.mp different).imp fun {first second} apart => ?_⟩
  · have apart : sampler.paramName "texture" ≠ sampler.paramName "sampler" := fun same =>
      absurd (paramName_inj word_texture word_sampler same).2 (by decide)
    simpa using apart
  · have differ {half other : String} (word : Word half) (otherWord : Word other) :
        first.paramName half ≠ second.paramName other := fun same =>
      apart (Prod.ext_iff.mpr (paramName_inj word otherWord same).1)
    simp [List.disjoint_left, Function.onFun, differ word_texture, differ word_sampler, word_texture,
      word_sampler]

end Sampler

/-! ## The step -/

/-- What the textures category asks of a shader: the claimed samplers have different names, are not
registered as invariant, and are single ones or flat arrays of fewer than 2^31. -/
structure Shader.SamplersFlat (shader : Shader) : Prop where
  names : ((shader.claimed .textures none).map fun id =>
    (shader.program.tables.vars[id.index]?).map Variable.name).Nodup
  free : ∀ id ∈ shader.claimed .textures none, shader.invariance.hasVariable id = false
  flat : ∀ id ∈ shader.claimed .textures none, ∀ {entry : Variable},
    shader.program.tables.vars[id.index]? = some entry → ∃ extents kind,
      shader.program.tables.IsSampler entry.type extents kind ∧ ∀ extent ∈ extents, extent < 2 ^ 31

/-- What the textures category makes of a shader whose entry point depends on it. The entry point has
a local instance of a struct with a field for every claimed variable, and takes new parameters. In
front of its old body, parameters and instance are connected sampler by sampler, and just the names
of the parameters are recorded. -/
structure Shader.TakesSamplers (before after : Shader) (struct : TypeId) (entry : Function)
    (main : FunctionId) (holder : VariableId) (params : List Param) (prologue inner : Block) :
    Prop where
  enters : after.program.Enters main
  signature : after.program.tables.functions[main.index]? = some (entry.append params)
  fresh : Tables.NewParams before.program.tables after.program.tables params
  names : (after.program.tables.paramNames params).Nodup
  fields : ∃ name fields, after.program.tables.types[struct.index]? = some (.struct name fields) ∧
    List.Forall₂ (fun id field => ∃ entry, before.program.tables.vars[id.index]? = some entry ∧
      field.name = entry.name) (before.claimed .textures none) fields
  isLocal : after.program.tables.IsLocal holder struct
  body : (main, .declare holder none :: (prologue ++ [.block inner])) ∈ after.program.definitions
  connected : Sampler.Connected after.program.tables after.reflection holder before.samplers params
    prologue
  others : ∀ id, id ∉ params.map Param.variableId →
    after.reflection.name? id = before.reflection.name? id
  count : after.reflection.count = before.reflection.count + params.length

/-- The field of a sampler stays so. -/
theorem Tables.FieldFor.evolves {before middle after : Tables} {entry : Variable} {field : Field}
    (isField : FieldFor .textures before middle entry field) (evolves : middle.Evolves after) :
    FieldFor .textures before after entry field := by
  obtain ⟨env, same, extents, kind, base, isSampler, isEnv, shape⟩ := isField
  exact ⟨env, same, extents, kind, base, isSampler, evolves.isEnv isEnv, evolves.hasShape shape⟩

/-- The fields of the instance are those of the claimed variables. -/
theorem StepRun.textures_fields {shader result : Shader}
    (step : StepRun shader .textures none result) {name : Name} {fields : List Field}
    (struct : result.program.tables.types[step.gathering.internal.index]? =
      some (.struct name fields)) :
    List.Forall₂ (fun id field => ∃ entry, shader.program.tables.vars[id.index]? = some entry ∧
      Tables.FieldFor .textures shader.program.tables result.program.tables entry field)
      (shader.claimed .textures none) fields := by
  obtain ⟨others, otherStruct, isFields⟩ := step.run.member_field rfl
  obtain ⟨-, rfl⟩ : _ ∧ others = fields := by
    simpa [StepRun.gathering, step.pruning_evolves.types otherStruct] using struct
  rw [← step.run.claimed_eq] at isFields
  refine isFields.imp ?_
  rintro id field ⟨entry, known, isField⟩
  exact ⟨entry, known, isField.evolves step.pruning_evolves⟩

namespace Shader

variable {shader result : Shader}

/-- The flat arrays of samplers are small. -/
theorem SamplersFlat.small (samplers : shader.SamplersFlat) {id : VariableId}
    (member : id ∈ shader.claimed .textures none) {entry : Variable}
    (known : shader.program.tables.vars[id.index]? = some entry) {extents : List Nat}
    {kind : ImageKind} (isSampler : shader.program.tables.IsSampler entry.type extents kind) :
    ∀ extent ∈ extents, extent < 2 ^ 31 := by
  obtain ⟨others, _, ⟨-, _, otherShape, -⟩, small⟩ := samplers.flat id member known
  obtain ⟨-, _, shape, -⟩ := isSampler
  rwa [← (shape.unique otherShape).1]

/-- Such samplers can be lowered. -/
theorem SamplersFlat.ready (samplers : shader.SamplersFlat) : shader.SamplersReady := by
  intro id declared entry known isSampler
  have claimed : id ∈ shader.claimed .textures none := by
    refine List.mem_filter.mpr ⟨declared, Gathering.accepts_eq ?_⟩
    have entryOk : shader.program.tables.variableAt id = .ok entry := by simpa using known
    simp only [Category.claims, entryOk, Outcome.ok_bind, isSampler]
  obtain ⟨extents, kind, flat, -⟩ := samplers.flat id claimed known
  exact ⟨samplers.free id claimed, extents, kind, flat⟩

/-- Such samplers are gathered. -/
theorem SamplersFlat.gather (samplers : shader.SamplersFlat) (orderly : shader.program.Orderly)
    (tested : ∀ id ∈ shader.program.globalVariables, ∃ answer,
      Category.claims .textures shader.program.tables none id = .ok answer)
    (filled : shader.claimed .textures none ≠ []) :
    ∃ gathering gathered, shader.gather .textures none = .ok (some gathering, gathered) := by
  refine @gather_of_can shader .textures none (· < 2 ^ 31) orderly tested filled
    ⟨filled, fun id member => ?_⟩ fun _ _ _ _ => ⟨_, _, _, rfl⟩
  have declared := (List.mem_filter.mp member).1
  obtain ⟨entry, declarable⟩ :=
    Program.global_declarable orderly.valid (Gathering.mem_declaredIn.mp declared)
  exact ⟨entry, declarable.known, fun _ =>
    ⟨samplers.free id member, samplers.flat id member declarable.known⟩⟩

/-- What a step of the textures category made of a shader. -/
theorem SamplersFlat.taken (samplers : shader.SamplersFlat)
    (step : StepRun shader .textures none result) (dependent : step.run.main ∈ step.run.dependents)
    {entry : Function}
    (known : shader.program.tables.functions[step.run.main.index]? = some entry)
    (recorded : ∀ named ∈ shader.reflection.names,
      named.1.index < shader.program.tables.vars.size) :
    ∃ main holder params prologue inner,
      shader.TakesSamplers result step.gathering.internal entry main holder params prologue inner := by
  obtain ⟨fields, news, params, inner, taken⟩ := step.textureEntry dependent known
  obtain ⟨name, struct⟩ := taken.known
  have isFields := step.textures_fields struct
  have each := Sampler.fills_of_fields taken.isLocal struct isFields
    fun id member _ entryKnown _ _ => samplers.small member entryKnown
  have connected := Sampler.connected_of_halves shader.reflection each taken.halves taken.added
    taken.fresh.input taken.fresh.nodup
  rw [← taken.reflection] at connected
  refine ⟨_, _, params, _, inner, step.result_enters, taken.signature, taken.fresh,
    connected.paramNames_nodup (Sampler.ofVariables_nodup samplers.names), ⟨name, fields, struct, ?_⟩,
    taken.isLocal, taken.body, connected, fun id other => ?_, ?_⟩
  · refine isFields.imp ?_
    rintro id field ⟨entry, entryKnown, env, rfl, -⟩
    exact ⟨entry, entryKnown, rfl⟩
  · rw [taken.reflection, Reflection.name?_recordSlots_of_not_mem other]
  · have paired : params.length = 2 * (TextureSlot.ofFields result.program.tables fields).length := by
      rw [← taken.added.length_eq, taken.halves.length]
    rw [taken.reflection]
    refine Reflection.count_recordSlots paired taken.fresh.nodup fun param member named own same => ?_
    exact Nat.not_lt.mpr (taken.fresh.fresh param member) (same ▸ recorded named own)

/-- A category on which a function depends claims variables. -/
theorem claimed_ne_nil {category : Category} {supplied : Option VariableId} {function : FunctionId}
    (orderly : shader.program.Orderly)
    (depends : function ∈ shader.program.dependents (shader.claimed category supplied).contains) :
    shader.claimed category supplied ≠ [] := by
  intro empty
  rw [empty] at depends
  have none := @Program.dependents_least _ ([] : List VariableId).contains orderly.onceDefinitions []
    (by simp) (by simp)
  exact absurd (none depends) (by simp)

/-- Lowering the textures of a shader whose entry point depends on them gives the entry point a
texture and a sampling state for every sampler, in order and under different names, points the
sampler's own texture environment at them right behind the declaration of the instance, and records
the sampler's name for both. A declared variable can be tested unless its type is an array that
leads back to itself. The last thing done is the check of the result, which passes if types
are made of earlier ones and no address of a sampler is taken that has a pointer type. -/
theorem textures_connected {main : FunctionId} {entry : Function}
    (orderly : shader.program.Orderly) (functions : shader.program.tables.FunctionsClosed)
    (tested : ∀ id ∈ shader.program.globalVariables, ∃ answer,
      Category.claims .textures shader.program.tables none id = .ok answer)
    (samplers : shader.SamplersFlat) (enters : shader.program.Enters main)
    (known : shader.program.tables.functions[main.index]? = some entry)
    (depends : main ∈ shader.program.dependents (shader.claimed .textures none).contains)
    (recorded : ∀ named ∈ shader.reflection.names,
      named.1.index < shader.program.tables.vars.size) (supplied : Option VariableId) :
    ∃ result struct copy holder params prologue inner,
      Lowering.lowerCategory (fun _ => .ok ()) supplied shader .textures =
        (do result.program.check; return (⟨some struct, some struct⟩, result)) ∧
      shader.TakesSamplers result struct entry copy holder params prologue inner ∧
      (shader.program.tables.Acyclic → shader.program.Addressed → result.program.check = .ok ()) := by
  obtain ⟨gathering, gathered, gathers⟩ :=
    samplers.gather orderly tested (claimed_ne_nil orderly depends)
  obtain ⟨gather⟩ := Shader.gather_inv gathers
  have installs := install_of_known orderly (by simp) gather fun run =>
    Program.known_retire (run.textures_known functions) _
  rcases installs with ⟨-, isOut, -⟩ | ⟨result, installs, step, rfl, rfl⟩
  · simp [Category.isOut] at isOut
  obtain rfl := enters.unique step.run.enters
  obtain ⟨copy, holder, params, prologue, inner, taken⟩ :=
    samplers.taken step (step.run.main_dependent enters depends) known recorded
  refine ⟨result, _, copy, holder, params, prologue, inner, ?_, taken, fun acyclic addressed => ?_⟩
  · have same : step.gathering.external = step.gathering.internal := step.run.textures_external
    have unsupplied : Category.suppliedTo .textures supplied = none := rfl
    simp only [Lowering.lowerCategory, Lowering.lift_eq_self, unsupplied, gathers, installs,
      Lowering.audit_eq_check, Outcome.ok_bind, Gathering.structs, same]
  · have suits : shader.Suits .textures none fun _ => True := {
      grounded := { orderly with
        acyclic, sized := shader.program.tables.sized_true, params := functions.params }
      filled := fun laidOut => absurd rfl laidOut
      samplers := fun _ => samplers.ready
      addresses := fun _ => addressed
      supplied := by simp }
    exact (step.result_grounded suits).valid

/-- A shader that samples a single sampler and an element of an array of two. -/
def sampling : Shader where
  program := {
    tables := {
      stage := .fragment
      types := (predefinedTypes ++
        [Ty.image ⟨.float, .planar, true, false, false, false⟩, Ty.array ⟨21⟩ 2]).toArray
      vars := #[
        { name := ⟨"s", .shaderInterface⟩, type := ⟨21⟩, decorations := [.uniform], scope := .global },
        { name := ⟨"t", .shaderInterface⟩, type := ⟨22⟩, decorations := [.uniform], scope := .global },
        { name := .temporary "color", type := .vec4, scope := .local }]
      functions := #[.named "main" [] .void .notApplicable] }
    globals := [.var ⟨0⟩, .var ⟨1⟩, .definition ⟨0⟩ [
      .declare ⟨2⟩ (some (.sample (.var ⟨0⟩) (.construct ⟨5⟩ [.const (.float 0)]))),
      .assign (.var ⟨2⟩)
        (.sample (.index (.var ⟨1⟩) (.int 1)) (.construct ⟨5⟩ [.const (.float 0)]))]] }

/-- The shader is orderly. -/
theorem sampling_orderly : sampling.program.Orderly := by decide +kernel

/-- The textures category claims both its samplers. -/
theorem sampling_claimed : sampling.claimed .textures none = [⟨0⟩, ⟨1⟩] := by
  decide +kernel

/-- They have different names, and their arrays are flat and short. -/
theorem sampling_flat : sampling.SamplersFlat where
  names := by
    rw [sampling_claimed]
    decide
  free := by
    rw [sampling_claimed]
    decide
  flat := by
    rw [sampling_claimed]
    have image : sampling.program.tables.types[21]? =
      some (.image ⟨.float, .planar, true, false, false, false⟩) := rfl
    rintro id member entry known
    rcases List.mem_pair.mp member with rfl | rfl
    · obtain rfl := Option.some.inj known
      exact ⟨[], _, ⟨by simp, ⟨21⟩, .base image rfl, image⟩, by simp⟩
    · obtain rfl := Option.some.inj known
      exact ⟨[2], _, ⟨by simp, ⟨21⟩, .array rfl (.base image rfl), image⟩, by simp⟩

/-- Its entry point is its only function. -/
theorem sampling_enters : sampling.program.Enters ⟨0⟩ := by
  obtain ⟨main, enters⟩ := sampling_orderly.enters
  obtain ⟨body, defined⟩ := enters.defined
  obtain rfl : main = ⟨0⟩ := congrArg Prod.fst (List.mem_singleton.mp defined)
  exact enters

/-- The entry point of `Shader.sampling` takes parameters for three samplers. -/
theorem textures_connected_sampling :
    sampling.samplers.map (fun sampler => (sampler.name.text, sampler.element)) =
      [("s", none), ("t", some 0), ("t", some 1)] ∧
    ∃ result struct copy holder params prologue inner,
      Lowering.lowerCategory (fun _ => .ok ()) none sampling .textures =
        (.ok (⟨some struct, some struct⟩, result) : Result _) ∧
      sampling.TakesSamplers result struct (.named "main" [] .void .notApplicable) copy holder params
        prologue inner := by
  refine ⟨by decide +kernel, ?_⟩
  obtain ⟨result, struct, copy, holder, params, prologue, inner, lowers, taken, valid⟩ :=
    textures_connected sampling_orderly (by decide)
      (fun id declared => ⟨true, by rcases List.mem_pair.mp declared with rfl | rfl <;> rfl⟩)
      sampling_flat sampling_enters rfl (by rw [sampling_claimed]; decide +kernel)
      (by simp [sampling]) none
  refine ⟨result, struct, copy, holder, params, prologue, inner, ?_, taken⟩
  rw [lowers, valid (by decide) ?_]
  · rfl
  · intro definition defined
    obtain rfl := List.mem_singleton.mp defined
    simp [Expr.Uses, Expr.int]

end Shader

end ShaderPipeline
