import Mathlib.Logic.Relation
import ShaderPipeline.Proofs.Journal
import ShaderPipeline.Proofs.KeptTypes
import ShaderPipeline.Session.Run

/-!
# Type look-ups in a session

A session leads from shader to shader. A request that is handled leads to the
shader that it leaves, a request that is refused changes nothing, and whoever runs
the session may change everything but the types by other means. Whatever the
requests, every step keeps the types. So in every shader that can be reached the
look-up of shared types and the table of types agree, and a type that was asked for
once keeps its identity.
-/

namespace ShaderPipeline

/-- The request for the shared type with a key. -/
def TypeKey.request : TypeKey → Request
  | .image kind => .imageType kind
  | .texture kind => .textureType kind
  | .array element size => .arrayType element size
  | .pointer pointee => .pointerType pointee

/-- Inserting declarations leaves the tables. -/
theorem Program.insertAt_tables {program result : Program} {place : Nat} {news : List Global}
    (inserted : program.insertAt place news = .ok result) : result.tables = program.tables := by
  unfold insertAt at inserted
  split at inserted
  · exact (congrArg Program.tables (Except.ok.inj inserted)).symm
  · cases inserted

/-- Whether a request is for a pass over the whole shader or one of its structs. -/
def Request.isPass : Request → Bool
  | prune => true
  | createBridge _ _ _ _ => true
  | lower _ _ => true
  | _ => false

namespace Session

variable {shader next : Shader} {answer : Answer}

/-! ## Requests -/

/-- A request that only asks leaves the shader. -/
theorem asking_inv {outcome : Result Answer}
    (handles : asking shader outcome = .ok (answer, next)) : next = shader := by
  simp only [asking, Outcome.bind_eq_ok_iff, Outcome.pure_eq_ok, Except.ok.injEq,
    Prod.mk.injEq] at handles
  obtain ⟨_, -, -, same⟩ := handles
  exact same.symm

/-- An operation on the tables leaves the tables that it gives. -/
theorem onTables_inv {α : Type} {reply : α → Answer} {outcome : Result (α × Tables)}
    (handles : onTables shader reply outcome = .ok (answer, next)) :
    ∃ value, outcome = .ok (value, next.program.tables) := by
  simp only [onTables, Outcome.bind_eq_ok_iff, Outcome.pure_eq_ok, Except.ok.injEq,
    Prod.mk.injEq] at handles
  obtain ⟨⟨value, tables⟩, made, -, rfl⟩ := handles
  exact ⟨value, made⟩

/-- So does an operation on the tables that cannot fail. -/
theorem onMade_inv {α : Type} {reply : α → Answer} {made : α × Tables}
    (handles : onTables shader reply (.ok made) = .ok (answer, next)) :
    made.2 = next.program.tables := by
  obtain ⟨value, same⟩ := onTables_inv handles
  exact congrArg Prod.snd (Except.ok.inj same)

/-- What a request that is handled leaves of the tables. -/
inductive Affects (shader : Shader) : Request → Tables → Prop where
  /-- It only looks at the tables, or it changes something else. -/
  | looked {request : Request} : Affects shader request shader.program.tables
  | shared (key : TypeKey) : Affects shader key.request (shader.program.tables.intern key).2
  | env (kind : ImageKind) :
      Affects shader (.textureEnv kind) (shader.program.tables.textureEnv kind).2
  | struct {request : Request} {name : Name} {fields : List Field}
      (asked : request = .addStruct name fields ∨ request = .createStruct name fields) :
      Affects shader request (shader.program.tables.addStruct name fields).2
  | declared {request : Request} {entry : Variable} {id : VariableId} {after : Tables}
      (made : shader.program.tables.declare entry = .ok (id, after)) :
      Affects shader request after
  | changed {request : Request} {id : VariableId} {change : Variable → Variable} {after : Tables}
      (made : shader.program.tables.updateVariable id change = .ok after)
      (sameType : ∀ entry, (change entry).type = entry.type) : Affects shader request after
  | function {request : Request} (noPass : request.isPass = false) (function : Function) :
      Affects shader request (shader.program.tables.addFunction function).2
  | pruned {program : Program} (prunes : shader.program.prune = .ok program) :
      Affects shader .prune program.tables
  | bridged {type : TypeId} {name : Name} {rules : LayoutRules} {place : Option Nat}
      {bridge : Option Bridge} {after : Tables} {registry : Invariance}
      (made : shader.program.tables.createBridge shader.invariance rules type name =
        .ok (bridge, after, registry)) :
      Affects shader (.createBridge type name rules place) after
  | lowered {supplied : Option VariableId} {journaled : Bool} {structs : CategoryStructs}
      {result : Shader} (lowers : shader.lower supplied = .ok (structs, result)) :
      Affects shader (.lower supplied journaled) result.program.tables

/-- Handling a request for a bridge leaves the tables with the bridge. -/
theorem createBridge_inv {type : TypeId} {name : Name} {rules : LayoutRules} {place : Option Nat}
    (handles : createBridge shader type name rules place = .ok (answer, next)) :
    ∃ bridge registry, shader.program.tables.createBridge shader.invariance rules type name =
      .ok (bridge, next.program.tables, registry) := by
  simp only [createBridge, Outcome.bind_eq_ok_iff] at handles
  obtain ⟨⟨bridge, tables, invariance⟩, made, handles⟩ := handles
  refine ⟨bridge, invariance, made.trans ?_⟩
  dsimp only at handles
  split at handles
  · simp only [Outcome.bind_eq_ok_iff, Outcome.pure_eq_ok, Except.ok.injEq,
      Prod.mk.injEq] at handles
    obtain ⟨program, inserted, -, rfl⟩ := handles
    rw [Program.insertAt_tables inserted]
  · obtain ⟨-, rfl⟩ := Prod.mk.inj (Except.ok.inj handles)
    rfl

/-- A request that is performed affects the tables as its kind allows. -/
theorem perform_inv {request : Request} (handles : perform shader request = .ok (answer, next)) :
    Affects shader request next.program.tables := by
  cases request with
  -- First the requests that only look, then those that make types, variables and functions, and
  -- then all others, which touch the tables only by way of a pass.
  | vectorType | findPointer | describeType | structName | findMain | body | types | vars
  | functions | globals | text | typeOf | hasEffect | findField | selectField | invariance
  | reflection | outline | check | dependents | describeCategory | classify | describePair =>
    exact asking_inv handles ▸ .looked
  | imageType kind => exact onMade_inv handles ▸ .shared (.image kind)
  | textureType kind => exact onMade_inv handles ▸ .shared (.texture kind)
  | arrayType element size => exact onMade_inv handles ▸ .shared (.array element size)
  | pointerType pointee => exact onMade_inv handles ▸ .shared (.pointer pointee)
  | textureEnv kind => exact onMade_inv handles ▸ .env kind
  | addStruct => exact onMade_inv handles ▸ .struct (.inl rfl)
  | createStruct =>
    obtain ⟨id, made⟩ := onTables_inv handles
    simp only [Tables.createStruct, Outcome.bind_eq_ok_iff, Outcome.pure_eq_ok,
      Except.ok.injEq] at made
    obtain ⟨-, -, made⟩ := made
    have same : _ = next.program.tables := congrArg Prod.snd made
    exact same ▸ .struct (.inr rfl)
  | declare =>
    obtain ⟨id, made⟩ := onTables_inv handles
    exact .declared made
  | createInstance =>
    obtain ⟨id, made⟩ := onTables_inv handles
    simp only [Tables.createInstance, Outcome.bind_eq_ok_iff] at made
    obtain ⟨_, -, -, -, declared⟩ := made
    exact .declared declared
  | createParam =>
    simp only [perform] at handles
    obtain ⟨param, made⟩ := onTables_inv handles
    simp only [Tables.createParam, Outcome.bind_eq_ok_iff, Outcome.pure_eq_ok, Except.ok.injEq,
      Prod.mk.injEq] at made
    obtain ⟨⟨id, after⟩, declared, -, rfl⟩ := made
    exact .declared declared
  | markReference | eliminate =>
    simp only [perform, Outcome.bind_eq_ok_iff, Outcome.pure_eq_ok, Except.ok.injEq,
      Prod.mk.injEq] at handles
    obtain ⟨tables, made, -, rfl⟩ := handles
    exact .changed made fun _ => rfl
  | addFunction => exact onMade_inv handles ▸ .function rfl _
  | prependParam | appendParams | changeReturn =>
    obtain ⟨copy, made⟩ := onTables_inv handles
    simp only [Tables.cloneFunction, Outcome.bind_eq_ok_iff, Outcome.pure_eq_ok,
      Except.ok.injEq] at made
    obtain ⟨_, -, made⟩ := made
    have same : _ = next.program.tables := congrArg Prod.snd made
    exact same ▸ .function rfl _
  | addGlobal | markInvariant | markFieldInvariant | recordName | mapStatements =>
    obtain ⟨-, rfl⟩ := Prod.mk.inj (Except.ok.inj handles)
    exact .looked
  | insertGlobals =>
    simp only [perform, Outcome.bind_eq_ok_iff, Outcome.pure_eq_ok, Except.ok.injEq,
      Prod.mk.injEq] at handles
    obtain ⟨program, inserted, -, rfl⟩ := handles
    exact Program.insertAt_tables inserted ▸ .looked
  | rebuild script =>
    have same : (rebuild shader script).2 = next := congrArg Prod.snd (Except.ok.inj handles)
    rw [← same, rebuild]
    dsimp only
    split <;> exact .looked
  | prune =>
    simp only [perform, Outcome.bind_eq_ok_iff, Outcome.pure_eq_ok, Except.ok.injEq,
      Prod.mk.injEq] at handles
    obtain ⟨program, prunes, -, rfl⟩ := handles
    exact .pruned prunes
  | createBridge =>
    obtain ⟨bridge, registry, made⟩ := createBridge_inv handles
    exact .bridged made
  | lower =>
    simp only [perform, Outcome.bind_eq_ok_iff, Outcome.pure_eq_ok, Except.ok.injEq,
      Prod.mk.injEq] at handles
    obtain ⟨⟨structs, lowered⟩, lowers, -, rfl⟩ := handles
    exact .lowered lowers

/-- What is handled with a journal is handled without one, or was only looked at. -/
theorem handle_inv {request : Request} {journal : Option (List JournalEntry)}
    (handles : handle shader request = (journal, .ok (answer, next))) :
    next = shader ∨ perform shader request = .ok (answer, next) := by
  unfold handle at handles
  split at handles
  case h_1 => exact .inl (asking_inv (congrArg Prod.snd handles))
  case h_2 supplied =>
    have outcome := congrArg Prod.snd handles
    simp only [Outcome.bind_eq_ok_iff] at outcome
    obtain ⟨⟨structs, lowered⟩, lowers, done⟩ := outcome
    refine .inr ?_
    simp only [perform, Shader.lower_of_journaled (Prod.ext rfl lowers), Outcome.ok_bind]
    exact done
  case h_3 => exact .inr (congrArg Prod.snd handles)

/-- So does a request that is handled, whatever is recorded for it. -/
theorem handle_affects {request : Request} {journal : Option (List JournalEntry)}
    (handles : handle shader request = (journal, .ok (answer, next))) :
    Affects shader request next.program.tables := by
  rcases handle_inv handles with rfl | performs
  · exact .looked
  · exact perform_inv performs

/-- Whatever is asked for, the types are kept. -/
theorem Affects.keepsTypes {request : Request} {after : Tables}
    (affects : Affects shader request after) : shader.program.tables.KeepsTypes after := by
  cases affects with
  | looked => exact .refl _
  | shared key => exact (Tables.MakesTypes.shared .nothing key).keepsTypes
  | env kind => exact (Tables.textureEnv_makes kind).1.keepsTypes
  | struct => exact (Tables.MakesTypes.struct .nothing _ _).keepsTypes
  | declared made =>
    obtain ⟨-, rfl⟩ := Tables.declare_inv made
    exact (Tables.addVariables_adds _).keepsTypes
  | changed made => exact Tables.updateVariable_keepsTypes made
  | function => exact (Tables.addFunction_adds _).keepsTypes
  | pruned prunes => exact Program.prune_keepsTypes prunes
  | bridged made => exact Tables.createBridge_keepsTypes made
  | lowered lowers => exact Shader.lower_keepsTypes lowers

/-! ## Sessions -/

/-- What may become of a shader in a session, as long as nothing ends it. -/
inductive Step (shader : Shader) : Shader → Prop where
  /-- A request is handled. -/
  | handled {request : Request} {journal : Option (List JournalEntry)} {answer : Answer}
      {next : Shader} (handles : handle shader request = (journal, .ok (answer, next))) :
      Step shader next
  /-- A request is refused, and the shader stays as it was. -/
  | refused {request : Request} {journal : Option (List JournalEntry)} {error : Error}
      (refuses : handle shader request = (journal, .error (.reported error))) : Step shader shader
  /-- The shader is changed by other means, which leave the types alone. -/
  | edited {next : Shader} (sameTypes : next.program.tables.types = shader.program.tables.types)
      (sameEnvs : next.program.tables.textureEnvs = shader.program.tables.textureEnvs) :
      Step shader next

/-- A session can lead from one shader to another. -/
def Leads : Shader → Shader → Prop := Relation.ReflTransGen Step

/-- A session that starts with an empty shader can lead to the shader. -/
def Reachable (stage : Stage) (shader : Shader) : Prop := Leads (.empty stage) shader

/-- One step of a session keeps the types. -/
theorem Step.keepsTypes (step : Step shader next) :
    shader.program.tables.KeepsTypes next.program.tables := by
  cases step with
  | handled handles => exact (handle_affects handles).keepsTypes
  | refused _ => exact .refl _
  | edited sameTypes sameEnvs => exact .of_same sameTypes sameEnvs

/-- So does a session of any length. -/
theorem Leads.keepsTypes (leads : Leads shader next) :
    shader.program.tables.KeepsTypes next.program.tables := by
  induction leads with
  | refl => exact .refl _
  | tail _ step inductionHypothesis => exact inductionHypothesis.trans step.keepsTypes

/-- In every session, each shared type has one identity, and each environment is one. -/
theorem Reachable.wellShared {stage : Stage} (reached : Reachable stage shader) :
    shader.program.tables.WellShared :=
  reached.keepsTypes.wellShared (Tables.wellShared_empty stage)

/-- In every session, the tables are sound. -/
theorem Reachable.sound {stage : Stage} (reached : Reachable stage shader) :
    shader.program.tables.Sound :=
  reached.keepsTypes.sound (Tables.sound_empty stage)

/-! ## Asking for types -/

/-- A request for a shared type is answered with its identity, and nothing is recorded. -/
theorem handle_request (shader : Shader) (key : TypeKey) : handle shader key.request =
    (none, .ok (.type (shader.program.tables.intern key).1,
      shader.withTables (shader.program.tables.intern key).2)) := by
  cases key <;> rfl

/-- So is a request for a texture environment. -/
theorem handle_textureEnv (shader : Shader) (kind : ImageKind) : handle shader (.textureEnv kind) =
    (none, .ok (.type (shader.program.tables.textureEnv kind).1,
      shader.withTables (shader.program.tables.textureEnv kind).2)) := rfl

/-- A shared type that was asked for once is there, and asking again gives it again, whatever
happened in between. -/
theorem request_lasts (shared : shader.program.tables.WellShared) (key : TypeKey) :
    ∃ id next, handle shader key.request = (none, .ok (.type id, next)) ∧
      next.program.tables.typeAt id = .ok key.type ∧
      ∀ later, Leads next later → handle later key.request = (none, .ok (.type id, later)) := by
  refine ⟨_, _, handle_request shader key, ?_, fun later leads => ?_⟩
  · exact Tables.typeAt_eq_ok_iff.mpr (Tables.intern_known key)
  · have toLater := (handle_affects (handle_request shader key)).keepsTypes.trans leads.keepsTypes
    have known := leads.keepsTypes.types (Tables.intern_known key)
    rw [handle_request, (toLater.wellShared shared).intern_eq known]
    rfl

/-- So it is with texture environments. -/
theorem textureEnv_lasts (shared : shader.program.tables.WellShared) (kind : ImageKind) :
    ∃ id next, handle shader (.textureEnv kind) = (none, .ok (.type id, next)) ∧
      next.program.tables.IsEnv kind id ∧
      next.program.tables.typeAt .sampler = .ok .sampler ∧
      ∀ later, Leads next later →
        handle later (.textureEnv kind) = (none, .ok (.type id, later)) := by
  have registered := (@Tables.textureEnv_makes shader.program.tables kind).2
  have nextShared := (handle_affects (handle_textureEnv shader kind)).keepsTypes.wellShared shared
  refine ⟨_, _, handle_textureEnv shader kind, nextShared.isEnv registered,
    Tables.typeAt_eq_ok_iff.mpr nextShared.sampler, fun later leads => ?_⟩
  rw [handle_textureEnv, Tables.textureEnv_eq (leads.keepsTypes.envs registered)]
  rfl

/-- In every shader that a session can lead to, type look-ups are canonical. The look-up of shared
types leads from a key to an identity just in case that identity has the type with this key, and no
other identity has it. Asking for a shared type, for a pointer type or for a texture environment
answers accordingly, and always the same. -/
theorem lookups_canonical {stage : Stage} {shader : Shader} (reached : Reachable stage shader) :
    (∀ (key : TypeKey) (id : TypeId), shader.program.tables.shared.lookup key = some id ↔
      shader.program.tables.typeAt id = .ok key.type) ∧
    (∀ (key : TypeKey) (first second : TypeId),
      shader.program.tables.typeAt first = .ok key.type →
        shader.program.tables.typeAt second = .ok key.type → first = second) ∧
    (∀ key : TypeKey, ∃ id next, handle shader key.request = (none, .ok (.type id, next)) ∧
      next.program.tables.typeAt id = .ok key.type ∧
      ∀ later, Leads next later → handle later key.request = (none, .ok (.type id, later))) ∧
    (∀ pointee : TypeId, ∃ found,
      handle shader (.findPointer pointee) = (none, .ok (.optionalType found, shader)) ∧
      ∀ id, found = some id ↔ shader.program.tables.typeAt id = .ok (.pointer pointee)) ∧
    (∀ kind : ImageKind, ∃ id next,
      handle shader (.textureEnv kind) = (none, .ok (.type id, next)) ∧
      next.program.tables.IsEnv kind id ∧
      next.program.tables.typeAt .sampler = .ok .sampler ∧
      ∀ later, Leads next later →
        handle later (.textureEnv kind) = (none, .ok (.type id, later))) := by
  have shared := reached.wellShared
  have found_iff (key : TypeKey) (id : TypeId) : shader.program.tables.find? key = some id ↔
      shader.program.tables.typeAt id = .ok key.type := by
    rw [Tables.typeAt_eq_ok_iff]
    exact shared.canonical.find?_eq_some_iff
  refine ⟨found_iff, ?_, request_lasts shared, ?_, textureEnv_lasts shared⟩
  · intro key first second isFirst isSecond
    rw [Tables.typeAt_eq_ok_iff] at isFirst isSecond
    exact shared.canonical key first second isFirst isSecond
  · exact fun pointee => ⟨_, rfl, found_iff (.pointer pointee)⟩

/-- A fragment shader for which a texture environment was asked, then an array of three of it. -/
def textured : Shader :=
  let kind : ImageKind := ⟨.float, .planar, true, false, false, false⟩
  let tables := (Tables.textureEnv { stage := .fragment } kind).2
  (Shader.empty .fragment).withTables (tables.intern (.array ⟨24⟩ 3)).2

/-- The array of texture environments and the pointer inside them have one identity each. -/
theorem lookups_canonical_textured : Reachable .fragment textured ∧
    textured.program.tables.shared.lookup (.array ⟨24⟩ 3) = some ⟨25⟩ ∧
    (∀ id, textured.program.tables.typeAt id = .ok (.pointer .sampler) → id = ⟨23⟩) ∧
    handle textured (.findPointer ⟨21⟩) = (none, .ok (.optionalType (some ⟨22⟩), textured)) := by
  have reached : Reachable .fragment textured :=
    (Relation.ReflTransGen.single (.handled (handle_textureEnv _ _))).tail
      (.handled (handle_request _ (.array ⟨24⟩ 3)))
  obtain ⟨lookups, unique, -, pointers, -⟩ := lookups_canonical reached
  obtain ⟨found, answers, found_iff⟩ := pointers ⟨21⟩
  rw [(found_iff ⟨22⟩).mpr rfl] at answers
  exact ⟨reached, (lookups _ _).mpr rfl, fun id known => unique (.pointer .sampler) id ⟨23⟩ known rfl,
    answers⟩

end Session

end ShaderPipeline
