import ShaderPipeline.Proofs.RequiredLayout
import ShaderPipeline.Proofs.Text.Types

/-!
# Types are layered

Types refer to each other by identity, and no look-up checks what it is given: an
array of the next free identity would be an array of itself. But a session that
passes only known types on never makes one. Every type is made of earlier types,
every variable has a known type, and no pass breaks this, although the passes make
types while they go through them. So whatever follows a type through the table
comes to its end.
-/

namespace ShaderPipeline

namespace Tables

variable {tables before middle after : Tables}

/-! ## Layered tables -/

/-- Types are made of earlier ones, and variables have known types. -/
structure Layered (tables : Tables) : Prop where
  sound : tables.Sound
  acyclic : tables.Acyclic
  variableTypes : ∀ entry ∈ tables.vars, entry.type.index < tables.types.size

/-- Layered tables refer to known types only. -/
theorem Layered.closed (layered : tables.Layered) : tables.Closed :=
  closed_of_acyclic layered.acyclic layered.variableTypes

/-- The tables that a shader starts with are layered. -/
theorem layered_empty (stage : Stage) : ({ stage } : Tables).Layered where
  sound := sound_empty stage
  acyclic := by cases stage <;> decide
  variableTypes := by simp

/-- One more type keeps the layers if it is made of known ones. -/
theorem Layered.push {type : Ty} (layered : before.Layered)
    (types : after.types = before.types.push type) (sameVars : after.vars = before.vars)
    (sound : after.Sound) (known : ∀ part ∈ type.parts, part.index < before.types.size) :
    after.Layered where
  sound := sound
  acyclic {index _} there part member := by
    rw [types, Array.getElem?_push] at there
    split at there
    case isTrue last =>
      obtain rfl := Option.some.inj there
      exact last ▸ known part member
    case isFalse => exact layered.acyclic there part member
  variableTypes entry member := by
    rw [sameVars] at member
    rw [types, Array.size_push]
    exact Nat.lt_succ_of_lt (layered.variableTypes entry member)

/-- Tables stay layered when a type over known ones is shared. -/
theorem Layered.intern (layered : tables.Layered) {key : TypeKey}
    (known : ∀ part ∈ key.type.parts, part.index < tables.types.size) :
    (tables.intern key).2.Layered := by
  have sound := (MakesTypes.shared .nothing key).keepsTypes.sound layered.sound
  revert sound
  unfold Tables.intern
  split
  · exact fun _ => layered
  · exact fun sound => layered.push rfl rfl sound known

/-- They stay layered when a struct over known types is added. -/
theorem Layered.addStruct (layered : tables.Layered) {name : Name} {fields : List Field}
    (known : ∀ field ∈ fields, field.type.index < tables.types.size) :
    (tables.addStruct name fields).2.Layered :=
  layered.push rfl rfl ((MakesTypes.struct .nothing name fields).keepsTypes.sound layered.sound)
    (List.forall_mem_map.mpr known)

/-- Types that are made on the way are made of earlier ones. -/
theorem Layered.grows {sizes : Nat → Prop} (layered : before.Layered)
    (grows : Grows sizes before after) (sound : after.Sound) : after.Layered where
  sound := sound
  acyclic := grows.acyclic layered.acyclic
  variableTypes entry member := by
    rw [grows.sameVars] at member
    exact Nat.lt_of_lt_of_le (layered.variableTypes entry member) grows.size_types

/-- What changes neither types nor the types of variables keeps the layers. -/
theorem Layered.of_same (layered : before.Layered) (sameTypes : after.types = before.types)
    (sameEnvs : after.textureEnvs = before.textureEnvs)
    (variableTypes : ∀ entry ∈ after.vars, entry.type.index < after.types.size) :
    after.Layered where
  sound := (KeepsTypes.of_same sameTypes sameEnvs).sound layered.sound
  acyclic there := layered.acyclic (sameTypes ▸ there)
  variableTypes := variableTypes

/-- They stay layered when variables of known types and functions are added. -/
theorem Layered.equips {returned : TypeId → Prop} (layered : before.Layered)
    (equips : before.Equips returned after) : after.Layered := by
  refine layered.of_same equips.sameTypes equips.sameEnvs fun entry member => ?_
  rcases equips.variableTypes entry member with old | known
  · exact equips.sameTypes ▸ layered.variableTypes entry old
  · exact known

/-- They stay layered when functions are added. -/
theorem Layered.adds (layered : before.Layered) (adds : before.Adds after)
    (sameVars : after.vars = before.vars) : after.Layered := by
  refine layered.of_same adds.sameTypes adds.sameEnvs fun entry member => ?_
  rw [adds.sameTypes]
  exact layered.variableTypes entry (sameVars ▸ member)

/-- They stay layered when variables go out of use. -/
theorem Layered.retire (layered : tables.Layered) (gone : VariableId → Bool) :
    (tables.retire gone).Layered := by
  refine layered.of_same rfl rfl fun entry member => ?_
  obtain ⟨index, there⟩ := Array.getElem?_of_mem member
  rw [getElem?_retire] at there
  obtain ⟨old, known, rfl⟩ := Option.map_eq_some_iff.mp there
  rw [Variable.retire_type]
  exact layered.variableTypes old (Array.mem_of_getElem? known)

/-- A change of a variable that leaves its type alone. -/
theorem Layered.updateVariable (layered : tables.Layered) {id : VariableId}
    {change : Variable → Variable} (made : tables.updateVariable id change = .ok after)
    (sameType : ∀ entry, (change entry).type = entry.type) : after.Layered := by
  unfold Tables.updateVariable at made
  split at made
  case isFalse => cases made
  case isTrue =>
    obtain rfl := Except.ok.inj made
    refine layered.of_same rfl rfl fun entry member => ?_
    obtain ⟨index, there⟩ := Array.getElem?_of_mem member
    rw [Array.getElem?_modify] at there
    split at there
    · obtain ⟨old, known, rfl⟩ := Option.map_eq_some_iff.mp there
      rw [sameType]
      exact layered.variableTypes old (Array.mem_of_getElem? known)
    · exact layered.variableTypes entry (Array.mem_of_getElem? there)

/-! ## Return types -/

/-- Every function returns a known type, or what a function before returned. -/
def KeepsReturns (before after : Tables) : Prop :=
  ∀ function ∈ after.functions, function.returnType.index < after.types.size ∨
    ∃ source ∈ before.functions, source.returnType = function.returnType

/-- If no function changes, every return type stays known. -/
theorem KeepsReturns.of_same (same : after.functions = before.functions) :
    before.KeepsReturns after :=
  fun function member => .inr ⟨function, same ▸ member, rfl⟩

/-- Return types that stay known in two steps stay known. -/
theorem KeepsReturns.trans (first : before.KeepsReturns middle)
    (second : middle.KeepsReturns after) (larger : middle.types.size ≤ after.types.size) :
    before.KeepsReturns after := by
  intro function member
  rcases second function member with known | ⟨source, inMiddle, same⟩
  · exact .inl known
  · rw [← same]
    exact (first source inMiddle).imp_left (Nat.lt_of_lt_of_le · larger)

/-- Return types stay known if those that are given to new functions are. -/
theorem Equips.keepsReturns {returned : TypeId → Prop} (equips : before.Equips returned after)
    (known : ∀ type, returned type → type.index < after.types.size) :
    before.KeepsReturns after :=
  fun function member => (equips.returnTypes function member).imp_left (known _)

/-- Tables that keep their types lose none. -/
theorem KeepsTypes.size_types (keeps : before.KeepsTypes after) :
    before.types.size ≤ after.types.size := by
  by_contra smaller
  have there := keeps.types (Array.getElem?_eq_getElem (Nat.not_le.mp smaller))
  simp at there

/-! ## Passes -/

/-- A bridge keeps the layers, and its conversion function returns nothing. -/
theorem Layered.createBridge (layered : tables.Layered) {invariance registry : Invariance}
    {rules : LayoutRules} {struct : TypeId} {name : Name} {bridge : Option Bridge}
    (made : tables.createBridge invariance rules struct name = .ok (bridge, after, registry)) :
    after.Layered ∧ tables.KeepsReturns after := by
  obtain ⟨grown, grows, sound, adds⟩ :=
    Layout.createBridge_grows layered.sound layered.closed made
  have larger : tables.types.size ≤ after.types.size := by
    rw [adds.sameTypes]
    exact grows.size_types
  rcases (Layout.createBridge_inv made).2 with ⟨-, rfl, -⟩ |
    ⟨_, fields, _, _, -, fieldsOk, -, bridges, -, -⟩
  · exact ⟨layered, .of_same rfl⟩
  · obtain ⟨structName, structKnown⟩ := fieldsOf_eq_ok_iff.mp fieldsOk
    have inside := index_lt_of_getElem? structKnown
    have outside := index_lt_of_getElem? bridges.external
    constructor
    · refine (layered.grows grows sound).of_same adds.sameTypes adds.sameEnvs fun entry member => ?_
      -- The new variables hold the two structs.
      rw [bridges.vars] at member
      simp only [addVariables, Array.mem_append, List.mem_toArray, List.mem_cons,
        List.not_mem_nil, or_false] at member
      rcases member with old | rfl | rfl
      · exact Nat.lt_of_lt_of_le (layered.variableTypes entry old) larger
      · exact Nat.lt_of_lt_of_le inside larger
      · exact outside
    · intro function member
      rw [bridges.functions] at member
      rcases Array.mem_push.mp member with old | rfl
      · exact .inr ⟨function, old, rfl⟩
      · exact .inl (Nat.lt_of_lt_of_le (index_lt_of_getElem? (layered.sound.predefined rfl)) larger)

end Tables

/-- Pruning keeps the tables layered and the return types known. -/
theorem Program.prune_layered {program result : Program} (prunes : program.prune = .ok result)
    (layered : program.tables.Layered) :
    result.tables.Layered ∧ program.tables.KeepsReturns result.tables := by
  obtain ⟨_, _, pruned, -⟩ := Program.prune_inv prunes
  rw [pruned.tables]
  exact ⟨layered.retire _, .of_same rfl⟩

/-- Gathering keeps the layers, and the struct that crosses the boundary is known. -/
theorem GatherRun.layered {shader result : Shader} {category : Category}
    {supplied : Option VariableId} {gathering : Gathering}
    (run : GatherRun shader category supplied gathering result)
    (layered : shader.program.tables.Layered) :
    result.program.tables.Layered ∧
      shader.program.tables.KeepsReturns result.program.tables ∧
      gathering.external.index < result.program.tables.types.size := by
  obtain ⟨internal, grows, sound⟩ := run.internal layered.sound layered.closed
  have middle := layered.grows grows sound
  obtain ⟨_, _, struct⟩ := internal.known
  have inside := Tables.index_lt_of_getElem? (run.extended.types struct)
  have returns : shader.program.tables.KeepsReturns run.middle := .of_same grows.sameFunctions
  have external : gathering.external.index < result.program.tables.types.size := by
    rcases run.bridged with ⟨none, -⟩ | ⟨_, bridge, _, _, _, -, some, -, -, bridges, -⟩
    · simpa [Gathering.external, run.outer, none] using inside
    · simpa [Gathering.external, run.outer, some] using
        Tables.index_lt_of_getElem? bridges.external
  rcases run.bridge_cases with ⟨_, -, made⟩ | ⟨-, same, -⟩
  · obtain ⟨bridged, bridgeReturns⟩ := middle.createBridge made
    exact ⟨bridged, returns.trans bridgeReturns run.extended.size_types, external⟩
  · exact ⟨same ▸ middle, same ▸ returns, external⟩

/-- So does lowering one category. -/
theorem LoweringStep.layered {shader result : Shader} {category : Category}
    {supplied : Option VariableId} {gathering : Gathering}
    (step : LoweringStep shader category supplied gathering result)
    (layered : shader.program.tables.Layered) :
    result.program.tables.Layered ∧
      shader.program.tables.KeepsReturns result.program.tables := by
  obtain ⟨gather⟩ := Shader.gather_inv step.gathers
  obtain ⟨gathered, gatherReturns, external⟩ := gather.layered layered
  have equips := Shader.thread_equips step.threads
  have threadReturns : step.gathered.program.tables.KeepsReturns
      step.threaded.program.tables := by
    refine equips.keepsReturns fun type returned => ?_
    rw [equips.sameTypes, returned]
    exact external
  obtain ⟨pruned, pruneReturns⟩ :=
    Program.prune_layered step.prunes ((gathered.equips equips).retire _)
  refine ⟨pruned, ?_⟩
  have fromThreaded : step.threaded.program.tables.KeepsReturns result.program.tables :=
    pruneReturns
  exact (gatherReturns.trans threadReturns equips.size_types).trans fromThreaded
    (Program.prune_keepsTypes step.prunes).size_types

/-- So does lowering any number of categories. -/
theorem LoweringRun.layered {supplied : Option VariableId} {categories : List Category}
    {shader result : Shader} {structs : CategoryStructs}
    (run : LoweringRun supplied categories shader structs result)
    (layered : shader.program.tables.Layered) :
    result.program.tables.Layered ∧
      shader.program.tables.KeepsReturns result.program.tables := by
  induction run with
  | done shader => exact ⟨layered, .of_same rfl⟩
  | passed _ _ inductionHypothesis => exact inductionHypothesis layered
  | lowered step rest inductionHypothesis =>
    obtain ⟨next, toNext⟩ := step.layered layered
    obtain ⟨last, toLast⟩ := inductionHypothesis next
    exact ⟨last, toNext.trans toLast rest.keepsTypes.size_types⟩

/-! ## Going through a type -/

namespace Tables

variable {tables : Tables}

/-- Whatever follows a type through the table comes to its end: spelling it, asking whether it is a
sampler, replacing it by texture environments, widening its truth values, placing a field that has
it, and copying a value of it element by element. -/
structure ReadToEnd (tables : Tables) (id : TypeId) : Prop where
  text : ∃ text, ∀ depth, id.index < depth → tables.typeTextWithin depth id = .ok text
  sampler : ∃ answer, tables.isSampler id = .ok answer
  env : tables.samplerEnv id ≠ fault .endlessType
  widened : ∃ made, tables.widenBools id = .ok made
  placed : ∀ (rules : LayoutRules) (source : Nat) (field : Field), field.type = id →
    ∃ made, Layout.placeField tables rules source field = .ok made
  copied : ∃ extents base, tables.HasShape id extents base ∧
    (∀ depth, id.index ≤ depth → tables.shapeWithin depth id = ⟨extents, base⟩) ∧
    ∀ (target value : Expr) (other : TypeId), id ≠ other →
      Layout.copy tables target id value other =
        (positions (extents.map fun extent => (Int32.ofNat extent).toInt.toNat)).map
          fun position => .assign (target.atPosition position)
            (.construct base [value.atPosition position])

/-- A type that ends is replaced by texture environments, or it is no flat sampler. -/
theorem Ends.samplerEnv_ne {id : TypeId} (ends : tables.Ends id) :
    tables.samplerEnv id ≠ fault .endlessType := by
  obtain ⟨extents, base, shape⟩ := ends
  obtain ⟨entry, known, -⟩ := shape.base_known
  have baseOk := shape.baseOf_eq known (Nat.le_of_lt shape.length_lt)
  simp only [samplerEnv, baseOk, Outcome.ok_bind]
  cases flat : decide ((tables.shapeOf id).extents.length ≤ 1) with
  | false => simp [ensure, fault, bind, Except.bind]
  | true =>
    simp only [ensure, if_pos, Outcome.ok_bind]
    cases entry <;> simp [defect, fault]

/-- In layered tables every known type ends. -/
theorem Layered.ends (layered : tables.Layered) {id : TypeId}
    (inside : id.index < tables.types.size) : tables.Ends id :=
  Acyclic.ends layered.acyclic inside

/-- In layered tables with names for all vector types, every known type is read to its end. -/
theorem Layered.readToEnd (layered : tables.Layered) (named : tables.VectorsNamed) {id : TypeId}
    (inside : id.index < tables.types.size) : tables.ReadToEnd id where
  text := typeTextWithin_ok layered.acyclic named inside
  sampler := by
    obtain ⟨extents, base, shape⟩ := layered.ends inside
    obtain ⟨entry, known, -⟩ := shape.base_known
    exact ⟨_, isSampler_eq_ok_iff.mpr ⟨extents, base, entry, shape, known, rfl⟩⟩
  env := (layered.ends inside).samplerEnv_ne
  widened := widenBools_ok layered.sound (layered.ends inside)
  placed rules source field same := by
    obtain ⟨placements, after, made⟩ := Layout.placeField_ok rules layered.sound
      (same ▸ layered.ends inside) source
    exact ⟨_, made⟩
  copied := by
    obtain ⟨extents, base, shape, short⟩ := Acyclic.hasShape layered.acyclic inside
    refine ⟨extents, base, shape, fun depth deep => ?_, fun target value other differs => ?_⟩
    · exact shape.shapeWithin_eq (Nat.le_trans short deep)
    · have whole := shape.shapeOf_eq (Nat.le_trans short (Nat.le_of_lt inside))
      simp only [Layout.copy, if_neg differs]
      rw [whole]

end Tables

end ShaderPipeline
