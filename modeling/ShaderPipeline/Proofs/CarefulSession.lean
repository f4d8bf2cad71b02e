import ShaderPipeline.Proofs.Layering

/-!
# Careful sessions

A careful session passes only known types on: the elements of arrays, what pointers
point to, and the types of fields and variables are there when a request mentions
them. Then types stay layered, whatever is asked for.
-/

namespace ShaderPipeline

/-! ## Requests -/

namespace Request

/-- The types that a request passes on: elements, pointees, and the types of fields and variables. -/
def passes : Request → List TypeId
  | arrayType element _ => [element]
  | pointerType pointee => [pointee]
  | addStruct _ fields => fields.map Field.type
  | createStruct _ fields => fields.map Field.type
  | declare entry => [entry.type]
  | createInstance type _ _ => [type]
  | createParam _ type _ => [type]
  | _ => []

end Request

namespace Session

variable {shader next : Shader} {answer : Answer} {request : Request}

/-- The request for a shared type passes its parts on. -/
theorem passes_request (key : TypeKey) : key.request.passes = key.type.parts := by
  cases key <;> rfl

/-- A pass keeps the layers, and the types that it makes functions return are known. -/
theorem Affects.pass {after : Tables} (affects : Affects shader request after)
    (isPass : request.isPass = true) (layered : shader.program.tables.Layered) :
    after.Layered ∧ shader.program.tables.KeepsReturns after := by
  cases affects with
  | looked => exact ⟨layered, .of_same rfl⟩
  | shared key => cases key <;> cases isPass
  | env kind => cases isPass
  | struct asked => rcases asked with rfl | rfl <;> cases isPass
  | declared made =>
    have equips := @Tables.declare_equips _ _ (fun _ => False) _ _ made
    exact ⟨layered.equips equips, equips.keepsReturns fun _ => False.elim⟩
  | changed made sameType =>
    refine ⟨layered.updateVariable made sameType, .of_same ?_⟩
    unfold Tables.updateVariable at made
    split at made
    · exact (congrArg Tables.functions (Except.ok.inj made)).symm
    · cases made
  | function noPass => cases noPass.symm.trans isPass
  | pruned prunes => exact Program.prune_layered prunes layered
  | bridged made => exact layered.createBridge made
  | lowered lowers => exact (Lowering.lowerCategories_inv lowers).layered layered

/-- A request that passes only known types on keeps the layers. -/
theorem Affects.layered {after : Tables} (affects : Affects shader request after)
    (known : ∀ type ∈ request.passes, type.index < shader.program.tables.types.size)
    (layered : shader.program.tables.Layered) : after.Layered := by
  cases affects with
  | looked => exact layered
  | shared key => exact layered.intern (passes_request key ▸ known)
  | env kind =>
    obtain ⟨id, tables, made, -, grows, sound⟩ :=
      layered.sound.textureEnv_run (fun _ => True) kind
    rw [made]
    exact layered.grows grows sound
  | struct asked =>
    rcases asked with rfl | rfl <;> exact layered.addStruct (List.forall_mem_map.mp known)
  | declared made => exact layered.equips (@Tables.declare_equips _ _ (fun _ => False) _ _ made)
  | changed made sameType => exact layered.updateVariable made sameType
  | function => exact layered.adds (Tables.addFunction_adds _) rfl
  | pruned prunes => exact (Program.prune_layered prunes layered).1
  | bridged made => exact (layered.createBridge made).1
  | lowered lowers => exact ((Lowering.lowerCategories_inv lowers).layered layered).1

/-! ## Careful sessions -/

/-- A step of a session in which only known types are passed on. -/
inductive CarefulStep (shader : Shader) : Shader → Prop where
  | handled {request : Request} {journal : Option (List JournalEntry)} {answer : Answer}
      {next : Shader}
      (known : ∀ type ∈ request.passes, type.index < shader.program.tables.types.size)
      (handles : handle shader request = (journal, .ok (answer, next))) : CarefulStep shader next
  | refused {request : Request} {journal : Option (List JournalEntry)} {error : Error}
      (refuses : handle shader request = (journal, .error (.reported error))) :
      CarefulStep shader shader
  /-- The shader is changed by other means, which leave the types alone and give every variable a
  known one. -/
  | edited {next : Shader} (sameTypes : next.program.tables.types = shader.program.tables.types)
      (sameEnvs : next.program.tables.textureEnvs = shader.program.tables.textureEnvs)
      (variableTypes : ∀ entry ∈ next.program.tables.vars,
        entry.type.index < next.program.tables.types.size) : CarefulStep shader next

/-- A careful session that starts with an empty shader can lead to the shader. -/
def CarefullyReachable (stage : Stage) (shader : Shader) : Prop :=
  Relation.ReflTransGen CarefulStep (.empty stage) shader

/-- A careful step is one of a session. -/
theorem CarefulStep.step (step : CarefulStep shader next) : Step shader next := by
  cases step with
  | handled _ handles => exact .handled handles
  | refused refuses => exact .refused refuses
  | edited sameTypes sameEnvs _ => exact .edited sameTypes sameEnvs

/-- A careful step keeps the tables layered. -/
theorem CarefulStep.layered (step : CarefulStep shader next)
    (layered : shader.program.tables.Layered) : next.program.tables.Layered := by
  cases step with
  | handled known handles => exact (handle_affects handles).layered known layered
  | refused _ => exact layered
  | edited sameTypes sameEnvs variableTypes =>
    exact layered.of_same sameTypes sameEnvs variableTypes

/-- What is carefully reachable is reachable. -/
theorem CarefullyReachable.reachable {stage : Stage} (reached : CarefullyReachable stage shader) :
    Reachable stage shader := by
  induction reached with
  | refl => exact .refl
  | tail _ step inductionHypothesis => exact inductionHypothesis.tail step.step

/-- In every careful session the tables are layered. -/
theorem CarefullyReachable.layered {stage : Stage} (reached : CarefullyReachable stage shader) :
    shader.program.tables.Layered := by
  induction reached with
  | refl => exact Tables.layered_empty stage
  | tail _ step inductionHypothesis => exact step.layered inductionHypothesis

/-- In every shader that a careful session can lead to, every type is made of earlier ones and every
variable has a known type. A pass over it makes functions return only known types or what functions
returned before. And whatever follows a known type through the table comes to its end. -/
theorem types_layered {stage : Stage} {shader : Shader}
    (reached : CarefullyReachable stage shader) :
    (∀ (index : Nat) (type : Ty), shader.program.tables.types[index]? = some type →
      ∀ part ∈ type.parts, part.index < index) ∧
    (∀ entry ∈ shader.program.tables.vars,
      entry.type.index < shader.program.tables.types.size) ∧
    (∀ (request : Request) (journal : Option (List JournalEntry)) (answer : Answer)
      (next : Shader), request.isPass = true →
      handle shader request = (journal, .ok (answer, next)) →
      ∀ function ∈ next.program.tables.functions,
        function.returnType.index < next.program.tables.types.size ∨
          ∃ source ∈ shader.program.tables.functions,
            source.returnType = function.returnType) ∧
    (WellFounded fun part whole : Fin shader.program.tables.types.size =>
      shader.program.tables.Contains ⟨whole⟩ ⟨part⟩) ∧
    ∀ id : TypeId, id.index < shader.program.tables.types.size →
      shader.program.tables.ReadToEnd id := by
  have layered := reached.layered
  refine ⟨fun _ _ there => layered.acyclic there, layered.variableTypes, ?_,
    (Tables.Acyclic.founded layered.acyclic).wellFounded,
    fun id inside => layered.readToEnd reached.reachable.vectorsNamed inside⟩
  intro request journal answer next isPass handles
  exact ((handle_affects handles).pass isPass layered).2

/-- The struct with a layout of its own is made in a careful session. -/
theorem masking_carefullyReachable : CarefullyReachable .fragment masking :=
  ((Relation.ReflTransGen.single
    (.handled (by decide) (handle_request _ (.array .bool 2)))).tail
    (.handled (by decide) (handle_request _ (.array ⟨21⟩ 3)))).tail
      (.handled (by decide) (show handle _ (.addStruct (.exact "Mask") maskFields) =
        (none, .ok (.type ⟨23⟩, masking)) from rfl))

/-- The request for a bridge to its layout with numbers for truth values. -/
def maskBridge : Request :=
  .createBridge ⟨23⟩ (.exact "MaskIn") ⟨.toInternal, false, true, true⟩ none

/-- Its arrays can be read to the end, and the bridge to its other layout converts with a function
that returns a known type. -/
theorem types_layered_masking : CarefullyReachable .fragment masking ∧
    masking.program.tables.types[22]? = some (.array ⟨21⟩ 3) ∧
    masking.program.tables.ReadToEnd ⟨22⟩ ∧
    ∃ answer next, handle masking maskBridge = (none, .ok (answer, next)) ∧
      next.program.tables.functions.size = 1 ∧
      ∀ function ∈ next.program.tables.functions,
        function.returnType.index < next.program.tables.types.size := by
  obtain ⟨-, -, passes, -, reads⟩ := types_layered masking_carefullyReachable
  refine ⟨masking_carefullyReachable, rfl, reads ⟨22⟩ (by decide), ?_⟩
  have succeeds : (handle masking maskBridge).2.toOption.any
      (fun made => made.2.program.tables.functions.size = 1) = true := by
    decide
  obtain ⟨⟨answer, next⟩, made, one⟩ := Outcome.exists_ok_of_any succeeds
  have handles : handle masking maskBridge = (none, .ok (answer, next)) := Prod.ext rfl made
  refine ⟨answer, next, handles, by simpa using one, fun function member => ?_⟩
  rcases passes _ _ _ _ rfl handles function member with known | ⟨source, old, -⟩
  · exact known
  · have none : source ∈ (#[] : Array Function) := old
    simp at none

end Session

end ShaderPipeline
