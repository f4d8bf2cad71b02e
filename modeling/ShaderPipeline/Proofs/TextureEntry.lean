import ShaderPipeline.Proofs.Frames
import ShaderPipeline.Proofs.Handover
import ShaderPipeline.Proofs.Signatures

/-!
# An entry point that takes textures

The parameters of the entry point are created from the fields of the external
struct, and the statements in front of its old body go through the fields of the
internal one. `TextureEntry` says that both went through the same slots and the
same parameters, and that these are what was recorded. It holds of the threaded
program and, since all of it is mentioned, of the pruned one.
-/

namespace ShaderPipeline

/-- The new parameters tell two extended signatures apart. -/
theorem Function.append_injective (function : Function) :
    Function.Injective function.append := by
  intro first second same
  simpa [append] using congrArg Function.params same

/-- What became of an entry point that takes textures: its struct has the given fields, and the
parameters stand for their slots in the signature, in the statements in front of the old body and
among the recorded names. -/
structure TextureEntry (before after : Shader) (entry : Function) (struct : TypeId)
    (copy : FunctionId) (holder : VariableId) (fields : List Field) (news : List Variable)
    (params : List Param) (inner : Block) : Prop where
  known : ∃ name, after.program.tables.types[struct.index]? = some (.struct name fields)
  isLocal : after.program.tables.IsLocal holder struct
  halves : TextureSlot.Halves after.program.tables
    (TextureSlot.ofFields after.program.tables fields) news
  added : List.Forall₂ (fun entry param =>
    after.program.tables.vars[param.variableId.index]? = some entry) news params
  fresh : Tables.NewParams before.program.tables after.program.tables params
  signature : after.program.tables.functions[copy.index]? = some (entry.append params)
  body : (copy, .declare holder none ::
    (Plan.connect holder (TextureSlot.ofFields after.program.tables fields) params ++
      [.block inner])) ∈ after.program.definitions
  reflection : after.reflection = before.reflection.recordSlots
    (TextureSlot.ofFields after.program.tables fields) params

/-- How the replacement of an entry point that takes textures was made. -/
theorem Threading.Made.textures {plan : Plan} {base : Tables} {state : Threading}
    {id copy : FunctionId} {function : Function} (made : Made plan base state id function copy)
    (enters : function.isMain = true) (takes : plan.category.entry = .textureParams) :
    ∃ name fields news params,
      state.tables.types[plan.external.index]? = some (.struct name fields) ∧
      TextureSlot.Halves state.tables (TextureSlot.ofFields state.tables fields) news ∧
      List.Forall₂ (fun entry param => state.tables.vars[param.variableId.index]? = some entry)
        news params ∧
      Tables.NewParams base state.tables params ∧
      state.tables.functions[copy.index]? = some (function.append params) := by
  cases made with
  | stays _ shape => simp [takes] at shape
  | @copied earlier news _ since replaced kept =>
    cases replaced with
    | @textureParams _ _ name fields _ struct halves =>
      obtain ⟨added, fresh⟩ := Tables.nextParams_added kept
      have sameTypes : state.tables.types = earlier.types := kept.sameTypes
      have sameSlots : TextureSlot.ofFields state.tables fields =
          TextureSlot.ofFields earlier fields := by
        simp only [TextureSlot.ofFields, Tables.shapeOf_congr sameTypes]
      refine ⟨name, fields, news, _, sameTypes ▸ struct, ?_, added,
        fresh.mono since.size_vars (Nat.le_refl _), getElem?_copy kept⟩
      rw [sameSlots]
      exact halves.congr sameTypes
    | helper helps => simp [helps] at enters
    | returning _ shape | fieldParams _ shape | indexParam _ shape | structParam _ shape =>
      simp [takes] at shape

namespace CategoryRun

section

variable {shader result : Shader} {category : Category} {supplied : Option VariableId}
  (run : CategoryRun shader category supplied result)

/-- The new body of a dependent function mentions its instance. -/
theorem inst_mentioned {function : FunctionId} {body : Block}
    (defined : (function, body) ∈ run.gathered.program.definitions)
    (dependent : function ∈ run.dependents) :
    run.inst function ∈ Block.symbols (Block.subst body (run.change function)) := by
  have reaches {root node : Expr} (own : root ∈ Block.roots body) (inside : node ∈ root.nodes)
      (holds : .var (run.inst function) ∈ (node.subst (run.change function)).nodes) :
      run.inst function ∈ Block.symbols (Block.subst body (run.change function)) :=
    Block.mem_symbols_iff.mpr ⟨_, Block.mem_roots_subst.mpr ⟨root, own, rfl⟩,
      Expr.nodes_subset (run.subst_mem_nodes inside) holds⟩
  rcases Program.mem_dependents_inv run.once defined dependent with
    ⟨id, mentioned, gathered⟩ | ⟨callee, called, again⟩
  · obtain ⟨root, own, inside⟩ := Block.mem_symbols_iff.mp mentioned
    refine reaches own inside ?_
    simp only [Expr.subst, change, Gathering.threading, List.contains_iff_mem.mp gathered, if_true]
    split <;> simp [Expr.nodes]
  · obtain ⟨root, own, among⟩ := Block.mem_calls_iff.mp called
    obtain ⟨args, inside⟩ := Expr.mem_calls_iff.mp among
    refine reaches own inside ?_
    have isDependent : callee ∈ run.dependents := again
    simp [Expr.subst, change, Gathering.threading, isDependent, Expr.nodes, Expr.nodesOfAll]

end

variable {shader result : Shader} (run : CategoryRun shader .textures none result)

/-! ## Threading -/

/-- An entry point that samples takes textures and sampling states. -/
theorem textures_entry : run.plan.category.entry = .textureParams := by
  have same : run.plan.category = .textures := run.gather.sameCategory
  rw [same]
  rfl

/-- It works with a local instance. -/
theorem textures_hasLocal : run.plan.hasLocal = true := by
  simp [Plan.hasLocal, Category.alwaysLocal, run.textures_entry]

/-- Textures have no layout of their own. -/
theorem textures_outer : run.gathering.outer = none :=
  run.fits.2.sameLayout (by rw [run.gather.sameCategory]; rfl)

/-- So the struct that crosses the boundary is the one that functions work with. -/
theorem textures_external : run.gathering.external = run.gathering.internal := by
  simp [Gathering.external, run.textures_outer]

/-- No field has an initial value. -/
theorem textures_startValues (holder : VariableId) : run.plan.startValues holder = [] := by
  have none : run.initials = [] := by
    refine List.eq_nil_iff_forall_not_mem.mpr fun ⟨position, value⟩ member => ?_
    exact absurd (run.initials_position member).1 (by simp)
  simp [Plan.startValues, plan, none]

/-- The definitions that are threaded are the old ones. -/
theorem textures_defined {definition : FunctionId × Block}
    (defined : definition ∈ run.gathered.program.definitions) :
    definition ∈ shader.program.definitions := by
  rcases run.gathered_cases defined with old | ⟨bridge, bridged, -⟩
  · exact old
  · have same := run.gather.outer
    simp [run.textures_outer, bridged] at same

/-- The statements in front of the old body of an entry point that takes textures. -/
theorem textures_surrounds {entry copied : Function} {entering leaving : Block}
    (surrounds : run.plan.Surrounds run.thread.base run.thread.locals result.program.tables entry
      (run.inst run.main) copied entering leaving) :
    ∃ name fields params, leaving = [] ∧ copied = entry.append params ∧
      result.program.tables.types[run.gathering.internal.index]? = some (.struct name fields) ∧
      (∀ param ∈ params, param.variableId.index < result.program.tables.vars.size) ∧
      entering = .declare (run.inst run.main) none :: Plan.connect (run.inst run.main)
        (TextureSlot.ofFields result.program.tables fields) params := by
  cases surrounds with
  | @textureParams name fields params _ struct news =>
    refine ⟨name, fields, params, rfl, rfl, struct, fun param member => (news param member).2, ?_⟩
    rw [run.textures_startValues, List.append_nil]
  | kept shape | returning shape | fieldParams shape | indexParam shape | converted shape =>
    simp [run.textures_entry] at shape

/-- The old body stands as it is behind what connects the textures. -/
theorem textures_nest (leaving body : Block) : run.plan.nest leaving body = body := by
  have notOut : run.plan.category.isOut = false :=
    Category.isOut_eq_false (by simp [run.textures_entry])
  simp [Plan.nest, notOut]

/-- The entry point takes two parameters for every slot, which are recorded under the names of the
fields and connected in front of its old body. -/
theorem textureEntry (dependent : run.main ∈ run.dependents) {entry : Function}
    (known : shader.program.tables.functions[run.main.index]? = some entry) {body : Block}
    (defined : (run.main, body) ∈ shader.program.definitions) :
    ∃ fields news params, TextureEntry shader result entry run.gathering.internal
      (run.replace run.main) (run.inst run.main) fields news params
      (Block.subst body (run.change run.main)) := by
  obtain ⟨other, otherKnown, baseKnown, isMain, found, made⟩ := run.thread.made dependent
  obtain rfl : other = entry := by
    simpa [run.gathered_extends.functions known] using otherKnown.symm
  obtain ⟨name, fields, news, params, struct, halves, added, fresh, signature⟩ :=
    made.textures (isMain.mpr rfl) run.textures_entry
  obtain ⟨recorded, recordedKnown, names⟩ :=
    run.thread.recorded.done baseKnown found run.textures_entry
  -- The copy has the same parameters wherever it is looked at.
  obtain rfl : params = recorded :=
    other.append_injective (Option.some.inj (signature.symm.trans recordedKnown))
  have sameNames : result.reflection = shader.reflection.recordSlots
      (TextureSlot.ofFields run.thread.final.tables fields) params := by
    rw [run.thread.reflection, names, run.gather.reflection, ← Gathering.slots_eq struct,
      Gathering.slots_congr run.thread.coherent.adds.sameTypes]
  rw [← run.thread.tables] at struct halves added fresh signature sameNames
  have internal : result.program.tables.types[run.gathering.internal.index]? =
      some (.struct name fields) := run.textures_external ▸ struct
  refine ⟨fields, news, params, ⟨name, internal⟩, ?_, halves, added,
    fresh.mono ?_ (Nat.le_refl _), signature, ?_, sameNames⟩
  · obtain ⟨-, inside⟩ :=
      run.thread.ready.internal _ (run.thread.inst_local dependent run.textures_hasLocal)
    exact ⟨_, run.thread.tables ▸ run.thread.coherent.adds.vars inside, rfl, rfl⟩
  · exact Nat.le_trans run.gathered_extends.size_vars run.thread.ready.adds.size_vars
  · rcases run.main_turned dependent defined known with
      ⟨noLocal, -⟩ | ⟨_, _, _, -, copiedKnown, surrounds, there⟩
    · simp [run.textures_hasLocal] at noLocal
    · obtain ⟨_, others, connected, rfl, rfl, otherStruct, -, rfl⟩ :=
        run.textures_surrounds surrounds
      obtain rfl : connected = params :=
        Function.append_injective _ (Option.some.inj (copiedKnown.symm.trans signature))
      obtain ⟨-, rfl⟩ : _ ∧ others = fields := by
        simpa [internal] using otherStruct.symm
      simpa [run.textures_nest] using there

/-! ## What pruning looks up -/

/-- The variable is known. -/
def Knows (shader : Shader) (id : VariableId) : Prop :=
  id.index < shader.program.tables.vars.size

/-- A variable stays known. -/
theorem knows_old {id : VariableId} (old : Knows shader id)
    (run : CategoryRun shader .textures none result) : Knows result id :=
  Nat.lt_of_lt_of_le old run.extended.size_vars

/-- What the body of a function becomes: it stays, it is substituted, or it is that of the entry
point and the textures are connected in front of it. -/
inductive TextureBody (function : FunctionId) (body : Block) : Block → Prop where
  | free : TextureBody function body body
  | changed (inst : Knows result (run.inst function)) :
      TextureBody function body (Block.subst body (run.change function))
  | connected (inst : Knows result (run.inst function)) (slots : List TextureSlot)
      {params : List Param} (news : ∀ param ∈ params, Knows result param.variableId) :
      TextureBody function body (.declare (run.inst function) none ::
        (Plan.connect (run.inst function) slots params ++
          [.block (Block.subst body (run.change function))]))

/-- Every body comes from one before, as the relation says. -/
theorem textureBody {definition : FunctionId × Block}
    (defined : definition ∈ result.program.definitions) :
    ∃ function body, (function, body) ∈ shader.program.definitions ∧
      run.TextureBody function body definition.2 := by
  obtain ⟨source, gathered, turns⟩ := Outcome.forall₂_exists_left run.turns defined
  have inst (dependent : source.1 ∈ run.dependents) : Knows result (run.inst source.1) := by
    obtain ⟨entry, known, -⟩ := run.inst_known dependent
    exact (Array.getElem?_eq_some_iff.mp known).1
  have old := run.textures_defined gathered
  cases turns with
  | free body => exact ⟨_, body, old, .free⟩
  | helper body dependent => exact ⟨_, body, old, .changed (inst dependent)⟩
  | handed body dependent => exact ⟨_, body, old, .changed (inst dependent)⟩
  | wrapped body dependent _ _ _ surrounds =>
    obtain ⟨_, fields, params, rfl, -, -, news, rfl⟩ := run.textures_surrounds surrounds
    rw [run.textures_nest]
    exact ⟨_, body, old, .connected (inst dependent) _ news⟩

/-- The new bodies mention known variables only. -/
theorem textures_mentioned (run : CategoryRun shader .textures none result)
    {definition : FunctionId × Block} (defined : definition ∈ result.program.definitions) :
    Block.Every (Expr.Uses (Knows result) (fun _ => True) fun _ => True) definition.2 := by
  obtain ⟨function, body, old, becomes⟩ := run.textureBody defined
  have uses : Block.Every (Expr.Uses (Knows result) (fun _ => True) fun _ => True) body := by
    refine Block.every_uses (fun id mentioned => ?_) (fun _ _ => trivial)
      fun _ _ node _ => by cases node <;> trivial
    obtain ⟨entry, known, -⟩ := run.orderly.mentioned old mentioned
    exact knows_old (Array.getElem?_eq_some_iff.mp known).1 run
  have changed (inst : Knows result (run.inst function)) :
      Block.Every (Expr.Uses (Knows result) (fun _ => True) fun _ => True)
        (Block.subst body (run.change function)) := by
    intro root member
    obtain ⟨expr, own, rfl⟩ := Block.mem_roots_subst.mp member
    refine Expr.every_subst (fun id there => ?_) (fun callee args _ argsUse => ?_)
      (fun _ _ _ => trivial) (uses expr own)
    · simp only [change, Gathering.threading]
      split
      · split <;> simp [Expr.Uses, inst]
      · simpa [Expr.Uses] using there
    · simp only [change, Gathering.threading]
      split <;> simpa [Expr.Uses, inst] using argsUse
  generalize definition.2 = whole at becomes ⊢
  cases becomes with
  | free => exact uses
  | changed inst => exact changed inst
  | connected inst slots news =>
    refine Block.every_cons.mpr ⟨by simp, Block.every_append.mpr ⟨?_, ?_⟩⟩
    · exact Plan.connect_every slots inst (fun _ _ => trivial) (fun _ _ => trivial)
        (fun _ => trivial) fun param member => ⟨news param member, trivial⟩
    · exact Block.every_cons.mpr ⟨by rw [Stmt.roots_block]; exact changed inst, Block.every_nil⟩

/-- The new bodies declare known variables only. -/
theorem textures_locals (run : CategoryRun shader .textures none result)
    {definition : FunctionId × Block} (defined : definition ∈ result.program.definitions) :
    Block.Each (fun stmt => ∀ id, Prune.declared? stmt = some id → Knows result id)
      definition.2 := by
  obtain ⟨function, body, old, becomes⟩ := run.textureBody defined
  have each : Block.Each (fun stmt => ∀ id, Prune.declared? stmt = some id → Knows result id)
      body := by
    intro stmt inside id declares
    obtain ⟨entry, declarable⟩ := Program.declared_declarable run.orderly.valid old inside declares
    exact knows_old (Array.getElem?_eq_some_iff.mp declarable.known).1 run
  have changed := @Block.Each.subst _ (fun stmt => ∀ id, Prune.declared? stmt = some id →
    Knows result id) _ (run.change function) each fun stmt declares => by
      cases stmt <;> exact declares
  generalize definition.2 = whole at becomes ⊢
  cases becomes with
  | free => exact each
  | changed => exact changed
  | connected inst slots news =>
    refine Block.each_cons.mpr ⟨⟨?_, by simp [Stmt.inner]⟩, Block.each_append.mpr ⟨?_, ?_⟩⟩
    · rintro id ⟨⟩
      exact inst
    · refine Block.each_of_flat fun stmt member => ?_
      obtain ⟨target, value, rfl⟩ := Plan.connect_assigns _ slots _ stmt member
      exact ⟨rfl, by simp [Prune.declared?]⟩
    · refine Block.each_cons.mpr ⟨⟨by simp [Prune.declared?], ?_⟩, Block.each_nil⟩
      simpa [Stmt.inner] using changed

/-- Pruning knows all that it looks up. -/
theorem textures_known (run : CategoryRun shader .textures none result)
    (functions : shader.program.tables.FunctionsClosed) : Prune.Known result.program where
  vars id member := by
    obtain ⟨declared, -⟩ := run.mem_globalVariables.mp (Gathering.mem_declaredIn.mpr member)
    exact knows_old (run.orderly.declared_known declared) run
  functions function declared := by
    obtain ⟨entry, there⟩ := Program.function_known (fun _ member => run.result_prototypes member)
      (fun definition defined => by
        obtain ⟨entry, there, -⟩ := run.result_enters.isMain definition defined
        exact ⟨entry, there⟩) declared
    exact ⟨entry, there, run.result_params functions.params there⟩
  mentioned definition defined id own := (run.textures_mentioned defined).symbol own
  locals definition defined stmt own := run.textures_locals defined stmt own

end CategoryRun

/-! ## Pruning -/

/-- Assignments are never pruned. -/
theorem Prune.Trims.eq_of_assigns {refs marks : List VariableId} {body trimmed : Block}
    (trims : Trims refs marks body trimmed)
    (assigns : ∀ stmt ∈ body, ∃ target value, stmt = .assign target value) : trimmed = body := by
  induction body generalizing trimmed with
  | nil =>
    cases trims
    rfl
  | cons stmt rest inductionHypothesis =>
    rw [List.forall_mem_cons] at assigns
    obtain ⟨⟨target, value, rfl⟩, others⟩ := assigns
    rcases trims.cons_inv with ⟨idle, -⟩ | ⟨left, tail, rfl, kept, trimsRest⟩
    · exact idle.elim
    · rw [kept.simple rfl, inductionHypothesis trimsRest others]

namespace StepRun

variable {shader result : Shader} (step : StepRun shader .textures none result)

/-- Pruning leaves the statements in front of the old body, because the body mentions the instance. -/
theorem textures_trims {slots : List TextureSlot} {params : List Param} {holder : VariableId}
    {inner trimmed : Block} (mentioned : holder ∈ step.refs)
    (trims : Prune.Trims step.refs step.marks
      (.declare holder none :: (Plan.connect holder slots params ++ [.block inner])) trimmed) :
    ∃ left, trimmed = .declare holder none :: (Plan.connect holder slots params ++ [.block left]) := by
  rcases trims.cons_inv with ⟨idle, -⟩ | ⟨first, rest, rfl, kept, trimsRest⟩
  · exact absurd mentioned idle.1
  obtain ⟨front, back, rfl, trimsFront, trimsBack⟩ := trimsRest.append_inv
  obtain rfl := trimsFront.eq_of_assigns (Plan.connect_assigns holder slots params)
  rcases trimsBack.cons_inv with ⟨idle, -⟩ | ⟨last, none, rfl, keptLast, trimsNone⟩
  · exact idle.elim
  obtain ⟨left, rfl⟩ := keptLast.blocks inner rfl
  cases trimsNone
  exact ⟨left, by rw [kept.simple rfl]⟩

/-- The entry point of the pruned program takes textures as that of the threaded one did. -/
theorem textureEntry (dependent : step.run.main ∈ step.run.dependents) {entry : Function}
    (known : shader.program.tables.functions[step.run.main.index]? = some entry) :
    ∃ fields news params inner, TextureEntry shader result entry step.gathering.internal
      (step.run.replace step.run.main) (step.run.inst step.run.main) fields news params inner := by
  obtain ⟨body, defined⟩ := step.run.enters.defined
  obtain ⟨fields, news, params, taken⟩ := step.run.textureEntry dependent known defined
  have sameTypes : result.program.tables.types = step.threaded.program.tables.types := by
    rw [step.pruned.tables_eq]
    rfl
  have sameSlots : TextureSlot.ofFields result.program.tables fields =
      TextureSlot.ofFields step.threaded.program.tables fields := by
    simp only [TextureSlot.ofFields, Tables.shapeOf_congr sameTypes]
  have mentioned : step.run.inst step.run.main ∈ step.refs := by
    refine step.pruned.refers.mentioned _ taken.body ?_
    obtain ⟨root, own, inside⟩ := Block.mem_symbols_iff.mp
      (step.run.inst_mentioned (step.run.gathered_defined defined) dependent)
    exact Block.mem_symbols_iff.mpr ⟨root, by simp [own], inside⟩
  have marked {param : Param} (member : param ∈ params) : param.variableId ∈ step.marks :=
    step.pruned.marked (step.pruned.refers.params _ taken.body taken.signature param
      (List.mem_append_right _ member))
  have stays {param : Param} (member : param ∈ params) :
      step.run.gathering.members.contains param.variableId = false := by
    by_contra gathered
    have gone : param.variableId ∈ step.run.gathering.members := by simpa using gathered
    obtain ⟨-, _, oldKnown⟩ := step.run.gather.member_known gone
    exact Nat.not_lt.mpr (taken.fresh.fresh param member)
      (Array.getElem?_eq_some_iff.mp oldKnown).1
  obtain ⟨⟨_, trimmed⟩, there, rfl, trims⟩ :=
    Outcome.forall₂_exists_right step.pruned.definitions taken.body
  obtain ⟨left, rfl⟩ := step.textures_trims mentioned trims
  refine ⟨fields, news, params, left, ?_, taken.isLocal.evolves step.pruning_evolves, ?_, ?_, ?_, ?_,
    ?_, ?_⟩
  · rw [sameTypes]
    exact taken.known
  · rw [sameSlots]
    exact taken.halves.congr sameTypes
  · refine (Outcome.forall₂_imp_mem taken.added.flip fun param member entry there => ?_).flip
    exact step.pruned.vars (stays member) (marked member) there
  · exact taken.fresh.mono (Nat.le_refl _) step.pruning_evolves.size_vars
  · exact step.pruning_evolves.functions taken.signature
  · rw [sameSlots]
    exact there
  · rw [step.reflection, taken.reflection, sameSlots]

end StepRun

end ShaderPipeline
