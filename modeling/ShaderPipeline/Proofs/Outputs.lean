import ShaderPipeline.Proofs.Composition
import ShaderPipeline.Proofs.Handover

/-!
# Every exit hands the outputs over

An entry point that returns the outputs does so wherever it leaves: every return
gives the local instance in the external layout, and right before it the internal
instance is converted, if the layouts differ. The category of the outputs brings
that about. The categories after it put statements in front and prune, and no exit
is lost, changed or added.
-/

namespace ShaderPipeline

/-- What the bodies of an orderly program call is known. -/
theorem Program.Orderly.calls_known {program : Program} (orderly : program.Orderly)
    {function : FunctionId} {body : Block} (defined : (function, body) ∈ program.definitions) :
    Block.Every (Expr.Calling fun callee _ => callee.index < program.tables.functions.size)
      body := by
  have occurs := Validity.checkDefinition_occurs (orderly.check_definition defined)
  refine fun root own => (occurs root own).imp fun node uses => ?_
  cases node with
  | call =>
    obtain ⟨count, -, function, known, -⟩ := uses
    exact (Array.getElem?_eq_some_iff.mp known).1
  | _ => trivial

namespace CategoryRun

variable {shader result : Shader} {category : Category} {supplied : Option VariableId}
  (run : CategoryRun shader category supplied result) {internal external : TypeId}
  {outer : Option OuterLayout} {inner output : VariableId} {body : Block}

/-- A function that does not depend on the category is called where it was. -/
theorem silent_change {function : FunctionId}
    (free : ∀ layout ∈ outer, layout.convert ∉ run.dependents ∧
      layout.convert.index < shader.program.tables.functions.size) {root : Expr}
    (silent : root.Every
      (Expr.Calling fun callee _ => ∀ layout ∈ outer, callee ≠ layout.convert)) :
    (root.subst (run.change function)).Every
      (Expr.Calling fun callee _ => ∀ layout ∈ outer, callee ≠ layout.convert) := by
  refine run.calling_change (fun dependent _ layout isOuter => ?_) (fun _ silent => silent) silent
  obtain ⟨outside, known⟩ := free layout isOuter
  exact run.replace_ne dependent outside
    (Nat.lt_of_lt_of_le known run.gathered_extends.size_functions)

/-- The conversions of a category call a function of its own. -/
theorem surrounds_silent {entry copied : Function} {entering leaving : Block}
    (surrounds : run.plan.Surrounds run.thread.base run.thread.locals result.program.tables entry
      (run.inst run.main) copied entering leaving)
    (known : ∀ layout ∈ outer,
      layout.convert.index < shader.program.tables.functions.size) :
    Block.Every (Expr.Calling fun callee _ => ∀ layout ∈ outer, callee ≠ layout.convert)
      entering := by
  have other {layout : OuterLayout} (isOuter : run.gathering.outer = some layout) :
      ∀ old ∈ outer, layout.convert ≠ old.convert := by
    obtain ⟨rules, converts⟩ := run.converts isOuter
    rintro old isOld same
    exact absurd (known old isOld) (by rw [← same, converts.new]; exact Nat.lt_irrefl _)
  exact (surrounds.calling (fun layout _ _ isOuter _ => other isOuter)
    fun layout _ _ isOuter _ => other isOuter).1

/-- A rule about the calls of all functions but the entry point, if the substitution carries it
over. -/
theorem elsewhere_calling {rule other : FunctionId → List Expr → Prop}
    (carries : ∀ {function : FunctionId} {root : Expr}, root.Every (Expr.Calling rule) →
      (root.subst (run.change function)).Every (Expr.Calling other))
    (before : ∀ definition ∈ shader.program.definitions, definition.1 ≠ run.main →
      Block.Every (Expr.Calling rule) definition.2) :
    ∀ definition ∈ result.program.definitions, definition.1 ≠ run.replace run.main →
      Block.Every (Expr.Calling other) definition.2 := by
  rintro ⟨name, whole⟩ defined notEntry
  rcases run.result_cases defined with ⟨bridge, bridged, same⟩ | ⟨function, body, old, same, frames⟩
  · obtain ⟨conversion, placements, isBody⟩ := run.gather.bridge_body bridged
    rw [(Prod.mk.inj same).2, isBody]
    exact fun root own => Expr.calling_of_uses (Layout.convertBody_converting _ _ _ root own)
  · have notMain : function ≠ run.main := by
      rintro rfl
      exact notEntry same
    have core : Block.Every (Expr.Calling other) (Block.subst body (run.change function)) := by
      intro root own
      obtain ⟨source, was, rfl⟩ := Block.mem_roots_subst.mp own
      exact carries (before _ old notMain source was)
    generalize Block.subst body (run.change function) = inner at core frames
    cases frames with
    | around isMain => exact absurd isMain notMain
    | bare => exact core

/-- A conversion function stays right after its struct. -/
theorem follows {struct : TypeId} {function : FunctionId}
    (follows : Global.Follows struct function shader.program.globals)
    (other : function ≠ run.main) (free : function ∉ run.dependents) :
    Global.Follows struct function result.program.globals := by
  obtain ⟨-, ⟨mainBody, atPlace⟩, -⟩ := Program.findMain_inv run.gather.findsMain
  have gathered : Global.Follows struct function run.gathered.program.globals := by
    rw [run.gather.globals]
    exact (follows.filter rfl fun _ => rfl).insertAt atPlace other
  exact gathered.renames run.renamed (run.replace_eq_self free)

/-- A category that does not make the entry point return its struct keeps all exits. -/
theorem delivers (delivers : shader.program.Delivers internal external outer inner output run.main
      body)
    (free : ∀ layout ∈ outer, layout.convert ∉ run.dependents ∧
      layout.convert.index < shader.program.tables.functions.size)
    (value : ∀ {entry : Function}, shader.program.tables.functions[run.main.index]? = some entry →
      entry.returnType ≠ .void) :
    ∃ whole, result.program.Delivers internal external outer inner output (run.replace run.main)
      whole := by
  obtain ⟨innerEntry, innerKnown, -, innerScope⟩ := delivers.innerLocal
  obtain ⟨outputEntry, outputKnown, -, outputScope⟩ := delivers.outputLocal
  have fixed : Block.subst (Plan.handover outer inner output) (run.change run.main) =
      Plan.handover outer inner output := by
    refine Plan.subst_handover (run.symbol_inner innerKnown (by simp [innerScope]))
      (run.symbol_inner outputKnown (by simp [outputScope])) fun layout isOuter => ?_
    funext args
    simp [change, Gathering.threading, (free layout isOuter).1]
  have made : Block.MadeOf (Stmt.Proceeds outer) (Plan.handover outer inner output)
      (Block.subst body (run.change run.main)) :=
    delivers.made.subst fixed fun _ proceeds => proceeds.subst fun _ => run.silent_change free
  have ends := delivers.ends.subst fixed
  have declares {id : VariableId} (declared : .declare id none ∈ body.stmts) :
      .declare id none ∈ Block.stmts (Block.subst body (run.change run.main)) :=
    Block.subst_mem_stmts declared
  have innerDeclared := declares delivers.innerDeclared
  have outputDeclared := declares delivers.outputDeclared
  -- What stands around the old body neither returns nor hands anything over.
  obtain ⟨whole, there, frames⟩ := run.result_frames delivers.defined
  have kept : Block.MadeOf (Stmt.Proceeds outer) (Plan.handover outer inner output) whole ∧
      Block.EndsIn (Plan.handover outer inner output) whole ∧
      .declare inner none ∈ whole.stmts ∧ .declare output none ∈ whole.stmts := by
    generalize Block.subst body (run.change run.main) = core at *
    cases frames with
    | bare => exact ⟨made, ends, innerDeclared, outputDeclared⟩
    | @around entry copied entering leaving _ _ _ known _ surrounds =>
      obtain ⟨rfl, isOut⟩ := surrounds.leaving_nil (value known)
      have nested : run.plan.nest [] core = core := by simp [Plan.nest, isOut]
      have proceeds := Block.each_proceeds surrounds.straight
        (run.surrounds_silent surrounds fun layout isOuter => (free layout isOuter).2)
      rw [nested]
      refine ⟨(Block.MadeOf.of_each proceeds).append (.step ?_ (by simpa [Stmt.inner] using made)
        .nil), .inside _ ends, ?_, ?_⟩
      · exact ⟨by simp, by simp [Stmt.ownExprs]⟩
      · simp [Stmt.mem_nodes_iff, Stmt.inner, innerDeclared]
      · simp [Stmt.mem_nodes_iff, Stmt.inner, outputDeclared]
  obtain ⟨isMade, isEnd, hasInner, hasOutput⟩ := kept
  have evolves : shader.program.tables.Evolves result.program.tables :=
    run.gather.evolves.trans run.threaded_adds.evolves
  refine ⟨whole, run.result_enters, there, delivers.innerLocal.evolves evolves,
    delivers.outputLocal.evolves evolves, delivers.uniform, hasInner, hasOutput, isMade, isEnd,
    fun layout isOuter => ?_, fun layout isOuter => ?_, fun layout isOuter => ?_⟩
  · obtain ⟨outside, inside⟩ := free layout isOuter
    by_cases dependent : run.main ∈ run.dependents
    · exact (run.replace_ne dependent outside
        (Nat.lt_of_lt_of_le inside run.gathered_extends.size_functions)).symm
    · rw [run.replace_eq_self dependent]
      exact delivers.distinct layout isOuter
  · exact run.follows (delivers.follows layout isOuter) (delivers.distinct layout isOuter)
      (free layout isOuter).1
  · refine run.elsewhere_calling (fun silent => ?_) (delivers.elsewhere layout isOuter)
    simpa using @silent_change _ _ _ _ run (some layout) _ (by simpa using free layout isOuter) _
      (by simpa using silent)

/-! ## The category of the outputs -/

/-- A function that a category brings in is not called by what was there. -/
theorem new_change {function : FunctionId} {layout : OuterLayout}
    (isOuter : run.gathering.outer = some layout) {root : Expr}
    (known : root.Every (Expr.Calling fun callee _ =>
      callee.index < shader.program.tables.functions.size)) :
    (root.subst (run.change function)).Every
      (Expr.Calling fun callee _ => callee ≠ layout.convert) := by
  obtain ⟨rules, converts⟩ := run.converts isOuter
  refine run.calling_change (fun dependent _ => run.replace_ne dependent converts.free
    converts.known) (fun _ inside same => ?_) known
  rw [same, converts.new] at inside
  exact Nat.lt_irrefl _ inside

/-- The old body of an entry point without a result, with the handover in place of every return. -/
theorem leaving_made {entry : Function}
    (defined : (run.main, body) ∈ shader.program.definitions)
    (known : shader.program.tables.functions[run.main.index]? = some entry)
    (void : entry.returnType = .void) (inner output : VariableId) :
    Block.MadeOf (Stmt.Proceeds run.gathering.outer)
      (Plan.handover run.gathering.outer inner output)
      (Plan.replaceReturns (Block.subst body (run.change run.main))
        (Plan.handover run.gathering.outer inner output)) := by
  obtain ⟨other, otherKnown, -, checked⟩ :=
    Validity.checkDefinition_eq_ok_iff.mp (run.orderly.check_definition defined)
  obtain rfl : other = entry := by simpa [known] using otherKnown.symm
  have bare : body.Each fun stmt => ∀ value, stmt = .ret value → value = none := by
    rintro stmt inside value rfl
    obtain ⟨visible, ⟨owner, ownerKnown, fits⟩, -⟩ := Validity.checkStmts_each checked _ inside
    obtain rfl : owner = other := Option.some.inj (ownerKnown.symm.trans known)
    exact fits.mp void
  have calls := Block.each_of_every (run.orderly.calls_known defined)
  have both : body.Each fun stmt => (∀ value, stmt = .ret value → value = none) ∧
      ∀ root ∈ stmt.ownExprs, root.Every (Expr.Calling fun callee _ =>
        callee.index < shader.program.tables.functions.size) :=
    fun stmt inside => ⟨bare stmt inside, calls stmt inside⟩
  rw [Plan.replaceReturns_eq_map]
  refine Block.MadeOf.leaving (both.subst fun stmt ⟨isBare, known⟩ => ?_)
    ⟨by simp, by simp [Stmt.ownExprs]⟩
  by_cases returns : stmt.subst (run.change run.main) = .ret none
  · exact .inl returns
  · refine .inr ⟨fun value same => ?_, ?_⟩
    · cases stmt with
      | ret value =>
        obtain rfl := isBare value rfl
        exact returns rfl
      | _ => simp [Stmt.subst, Stmt.leaving] at same
    · rw [Stmt.ownExprs_leaving returns, Stmt.ownExprs_subst, List.forall_mem_map]
      intro root own
      cases isOuter : run.gathering.outer with
      | none =>
        simpa using run.calling_change (fun _ _ => trivial) (fun _ _ => trivial) (known root own)
      | some layout => simpa using run.new_change isOuter (known root own)

/-- A conversion function comes in right after its struct. -/
theorem bridge_follows {layout : OuterLayout} (isOuter : run.gathering.outer = some layout) :
    Global.Follows run.gathering.external layout.convert result.program.globals := by
  obtain ⟨rules, converts⟩ := run.converts isOuter
  obtain ⟨bridge, bridged, same⟩ : ∃ bridge, run.gather.bridge = some bridge ∧
      (⟨bridge.struct, bridge.function⟩ : OuterLayout) = layout := by
    simpa [run.gather.outer] using isOuter
  have gathered : Global.Follows run.gathering.external layout.convert
      run.gathered.program.globals := by
    subst same
    rw [run.gather.globals, bridged]
    generalize shader.program.globals.filter _ = kept
    exact ⟨kept.take run.gather.place ++ run.gather.declared, bridge.body,
      kept.drop run.gather.place, by simp [Bridge.globals, Gathering.external, isOuter]⟩
  exact gathered.renames run.renamed (run.replace_eq_self converts.free)

/-- The new body of an entry point that returns the outputs. -/
theorem outputs_body (isOut : category.isOut = true) (dependent : run.main ∈ run.dependents)
    {body : Block} (defined : (run.main, body) ∈ shader.program.definitions) :
    ∃ (output : VariableId) (entering : Block) (entry : Function),
      (run.replace run.main, entering ++ .block (Plan.replaceReturns
          (Block.subst body (run.change run.main))
          (Plan.handover run.gathering.outer (run.inst run.main) output)) ::
        Plan.handover run.gathering.outer (run.inst run.main) output) ∈
          result.program.definitions ∧
      result.program.tables.IsLocal (run.inst run.main) run.gathering.internal ∧
      result.program.tables.IsLocal output run.gathering.external ∧
      (run.gathering.outer = none → run.inst run.main = output) ∧
      .declare (run.inst run.main) none ∈ entering ∧ .declare output none ∈ entering ∧
      entering.Each (Stmt.Proceeds run.gathering.outer) ∧
      shader.program.tables.functions[run.main.index]? = some entry ∧ entry.returnType = .void := by
  have shape : run.plan.category.entry = .returnsStruct := by
    have sameCategory : run.plan.category = category := run.gather.sameCategory
    rw [sameCategory]
    revert isOut
    cases category <;> decide
  have isLocal : run.plan.hasLocal = true := by simp [Plan.hasLocal, Category.alwaysLocal, shape]
  have evolves := run.thread.coherent.adds.evolves
  rw [← run.thread.tables] at evolves
  obtain ⟨entry, known, -⟩ := run.enters.isMain _ defined
  rcases run.main_turned dependent defined known with
    ⟨noLocal, -⟩ | ⟨_, _, _, -, -, surrounds, there⟩
  · simp [isLocal] at noLocal
  · have straight := surrounds.straight
    cases surrounds with
    | kept other | fieldParams other | textureParams other | indexParam other | converted other =>
      simp [shape] at other
    | @returning output _ void outside =>
      have inside := run.thread.inst_local dependent isLocal
      obtain ⟨-, innerThere⟩ := run.thread.ready.internal _ inside
      obtain ⟨-, side, outputThere⟩ := run.thread.ready.external _ outside
      have uniform : run.gathering.outer = none → run.inst run.main = output :=
        (run.thread.ready.uniform _ _ inside outside).mpr
      have nested : run.plan.nest (Plan.epilogue run.plan.toGathering (run.inst run.main) output)
          (Block.subst body (run.change run.main)) = Plan.replaceReturns
            (Block.subst body (run.change run.main))
            (Plan.handover run.gathering.outer (run.inst run.main) output) :=
        if_pos (Category.isOut_eq_true shape)
      rw [nested] at there
      refine ⟨output, _, entry, there, .evolves ⟨_, innerThere, rfl, rfl⟩ evolves,
        .evolves ⟨_, outputThere, rfl, rfl⟩ evolves, uniform, List.mem_cons_self, ?_,
        Block.each_proceeds straight ?_, known, void⟩
      · cases isOuter : run.gathering.outer with
        | none => simp [uniform isOuter]
        | some layout => simp [plan, isOuter]
      · refine Block.every_cons.mpr ⟨by simp, Block.every_append.mpr
          ⟨?_, Plan.startValues_calling _ _⟩⟩
        split <;> simp

/-- The category of the outputs makes every exit hand them over. -/
theorem delivers_outputs (isOut : category.isOut = true) (dependent : run.main ∈ run.dependents) :
    ∃ output whole, result.program.Delivers run.gathering.internal run.gathering.external
      run.gathering.outer (run.inst run.main) output (run.replace run.main) whole := by
  obtain ⟨body, defined⟩ := run.enters.defined
  obtain ⟨output, entering, entry, there, innerLocal, outputLocal, uniform, innerDeclared,
    outputDeclared, proceeds, known, void⟩ := run.outputs_body isOut dependent defined
  have made := run.leaving_made defined known void (run.inst run.main) output
  refine ⟨output, _, run.result_enters, there, innerLocal, outputLocal, uniform,
    Block.mem_stmts_of_mem (List.mem_append_left _ innerDeclared),
    Block.mem_stmts_of_mem (List.mem_append_left _ outputDeclared),
    (Block.MadeOf.of_each proceeds).append (.step ⟨by simp, by simp [Stmt.ownExprs]⟩
      (by simpa [Stmt.inner] using made) .once), (Block.EndsIn.here [_]).append _,
    fun layout isOuter => ?_, fun layout isOuter => run.bridge_follows isOuter,
    fun layout isOuter => ?_⟩
  · obtain ⟨rules, converts⟩ := run.converts isOuter
    exact (run.replace_ne dependent converts.free converts.known).symm
  · exact run.elsewhere_calling (run.new_change isOuter)
      fun definition old _ => run.orderly.calls_known old

/-- The struct of the outputs is new. -/
theorem external_new (isOut : category.isOut = true) :
    shader.program.tables.types.size ≤ run.gathering.external.index := by
  have unsupplied : supplied = none := by
    cases given : supplied with
    | none => rfl
    | some id =>
      have only := run.only (by simp [given])
      simp [only, Category.isOut] at isOut
  obtain ⟨internal, grows, -⟩ := run.gather.internal run.orderly.sound run.orderly.closed
  rcases run.gather.bridged with ⟨none, -⟩ | ⟨_, bridge, _, _, _, -, bridged, -, -, bridges, -⟩
  · subst unsupplied
    have same : run.gathering.external = run.gathering.internal := by
      simp [Gathering.external, run.gather.outer, none]
    rw [same]
    exact internal.new
  · have isStruct : run.gathering.external = bridge.struct := by
      simp [Gathering.external, run.gather.outer, bridged]
    rw [isStruct]
    exact Nat.le_trans grows.size_types bridges.new

/-- The structs differ just in case there is a conversion function. -/
theorem external_eq_internal_iff :
    run.gathering.external = run.gathering.internal ↔ run.gathering.outer = none := by
  obtain ⟨internal, -, -⟩ := run.gather.internal run.orderly.sound run.orderly.closed
  obtain ⟨name, fields, known⟩ := internal.known
  have old := Tables.index_lt_of_getElem? known
  rcases run.gather.bridged with ⟨none, -⟩ | ⟨_, bridge, _, _, _, -, bridged, -, -, bridges, -⟩
  · simp [Gathering.external, run.gather.outer, none]
  · have isStruct : run.gathering.external = bridge.struct := by
      simp [Gathering.external, run.gather.outer, bridged]
    have new := bridges.new
    rw [isStruct, run.gather.outer, bridged]
    refine ⟨fun same => ?_, by simp⟩
    rw [same] at new
    exact absurd old (Nat.not_lt.mpr new)

end CategoryRun

namespace StepRun

variable {shader result : Shader} {category : Category} {supplied : Option VariableId}
  (step : StepRun shader category supplied result)

/-- What the entry point returns after a category, it returned before, unless it depends on the
category and now returns its struct. -/
theorem returns_cases {type : TypeId} (returns : result.program.Returns type) :
    shader.program.Returns type ∨ category.isOut = true ∧ step.run.main ∈ step.run.dependents ∧
      type = step.gathering.external ∧ shader.program.Returns .void := by
  obtain ⟨main, entry, enters, known, rfl⟩ := returns
  obtain rfl := enters.unique step.result_enters
  obtain ⟨body, defined⟩ := step.run.enters.defined
  obtain ⟨old, oldKnown, -⟩ := step.run.enters.isMain _ defined
  by_cases dependent : step.run.main ∈ step.run.dependents
  · obtain ⟨final, front, back, finalKnown, signature⟩ := step.entry_signature dependent oldKnown
    obtain rfl := Option.some.inj (finalKnown.symm.trans known)
    cases isOut : category.isOut with
    | false => exact .inl ⟨_, old, step.run.enters, oldKnown, (signature.kept isOut).1.symm⟩
    | true =>
      obtain ⟨void, returned, -⟩ := signature.returned isOut
      exact .inr ⟨rfl, dependent, returned, _, old, step.run.enters, oldKnown, void⟩
  · rw [step.run.replace_eq_self dependent] at known
    obtain rfl := Option.some.inj ((step.evolves.functions oldKnown).symm.trans known)
    exact .inl ⟨_, old, step.run.enters, oldKnown, rfl⟩

/-- What the entry point returns, unless it is nothing, it still returns after a category. -/
theorem returns (step : StepRun shader category supplied result) {type : TypeId}
    (returns : shader.program.Returns type) (value : type ≠ .void) : result.program.Returns type := by
  obtain ⟨main, entry, enters, known, isType⟩ := returns
  obtain ⟨body, defined⟩ := step.result_enters.defined
  obtain ⟨final, finalKnown, -⟩ := step.result_enters.isMain _ defined
  have now : result.program.Returns final.returnType :=
    ⟨_, final, step.result_enters, finalKnown, rfl⟩
  have same {other : TypeId} (also : shader.program.Returns other) : other = type := by
    obtain ⟨again, otherEntry, otherEnters, otherKnown, rfl⟩ := also
    obtain rfl := otherEnters.unique enters
    obtain rfl := Option.some.inj (otherKnown.symm.trans known)
    exact isType
  rcases step.returns_cases now with before | ⟨-, -, -, void⟩
  · rwa [same before] at now
  · exact absurd (same void).symm value

/-- The entry point that depends on the category of the outputs returns their struct. -/
theorem returns_outputs (isOut : category.isOut = true)
    (dependent : step.run.main ∈ step.run.dependents) :
    result.program.Returns step.gathering.external := by
  obtain ⟨body, defined⟩ := step.run.enters.defined
  obtain ⟨old, oldKnown, -⟩ := step.run.enters.isMain _ defined
  obtain ⟨final, front, back, finalKnown, signature⟩ := step.entry_signature dependent oldKnown
  exact ⟨_, final, step.result_enters, finalKnown, (signature.returned isOut).2.1⟩

/-- The conversion function of a category is inert. -/
theorem convert_inert {layout : OuterLayout} (isOuter : layout ∈ step.gathering.outer) :
    result.program.Inert layout.convert := by
  have outer := step.run.gather.outer
  obtain ⟨bridge, bridged, rfl⟩ : ∃ bridge, step.run.gather.bridge = some bridge ∧
      (⟨bridge.struct, bridge.function⟩ : OuterLayout) = layout := by
    simpa [StepRun.gathering, outer] using isOuter
  exact step.bridge_inert bridged

/-- A category after that of the outputs keeps all exits. -/
theorem delivers (step : StepRun shader category supplied result) {internal external : TypeId}
    {outer : Option OuterLayout} {inner output : VariableId}
    (delivers : ∃ main body, shader.program.Delivers internal external outer inner output main body)
    (inert : ∀ layout ∈ outer, shader.program.Inert layout.convert) {type : TypeId}
    (returns : shader.program.Returns type) (value : type ≠ .void) :
    ∃ main body, result.program.Delivers internal external outer inner output main body := by
  obtain ⟨main, body, delivers⟩ := delivers
  obtain rfl := delivers.enters.unique step.run.enters
  have free : ∀ layout ∈ outer, layout.convert ∉ step.run.dependents ∧
      layout.convert.index < shader.program.tables.functions.size := by
    intro layout isOuter
    obtain ⟨converting, defined, -⟩ := inert layout isOuter
    obtain ⟨entry, known, -⟩ := step.run.enters.isMain _ defined
    exact ⟨step.free_of_inert (inert layout isOuter), (Array.getElem?_eq_some_iff.mp known).1⟩
  obtain ⟨main, other, enters, otherKnown, rfl⟩ := returns
  obtain rfl := enters.unique step.run.enters
  obtain ⟨whole, threaded⟩ := step.run.delivers delivers free fun known => by
    rwa [Option.some.inj (known.symm.trans otherKnown)]
  exact ⟨_, threaded.pruned step.pruned step.result_enters⟩

/-- The struct that crosses the boundary is known. -/
theorem external_known :
    step.gathering.external.index < result.program.tables.types.size := by
  obtain ⟨name, fields, known⟩ := step.run.external_known
  rw [step.pruned.tables_eq, Tables.retire_types]
  exact Tables.index_lt_of_getElem? known

/-- A category makes the entry point return a new struct at most. -/
theorem not_returns (step : StepRun shader category supplied result) {type : TypeId}
    (other : ¬ shader.program.Returns type)
    (old : type.index < shader.program.tables.types.size) : ¬ result.program.Returns type := by
  intro returns
  rcases step.returns_cases returns with before | ⟨isOut, -, rfl, -⟩
  · exact other before
  · exact absurd old (Nat.not_lt.mpr (step.run.external_new isOut))

end StepRun

/-- An entry point that ends up with returning the outputs of a category hands them over at every
exit. -/
theorem LoweringRun.delivers {supplied : Option VariableId} {categories : List Category}
    {shader result : Shader} {structs : CategoryStructs}
    (run : LoweringRun supplied categories shader structs result)
    (orderly : shader.program.Orderly) (functions : shader.program.tables.FunctionsClosed)
    {category : Category} {pair : Scoped TypeId} (among : (category, pair) ∈ structs)
    (isOut : category.isOut = true) {external : TypeId} (isExternal : pair.external = some external)
    (returns : result.program.Returns external) :
    ∃ internal outer inner output main body, pair.internal = some internal ∧
      (external = internal ↔ outer = none) ∧
      result.program.Delivers internal external outer inner output main body := by
  induction run with
  | done => simp at among
  | passed _ _ inductionHypothesis =>
    rcases List.mem_cons.mp among with same | later
    · obtain ⟨-, rfl⟩ := Prod.mk.inj same
      simp at isExternal
    · exact inductionHypothesis orderly functions later returns
  | lowered step rest inductionHypothesis =>
    obtain ⟨stepRun, rfl, -⟩ := step.exists_stepRun orderly Category.suppliedTo_only
    have nextOrderly := stepRun.result_orderly step.valid
    rcases List.mem_cons.mp among with same | later
    · obtain ⟨rfl, rfl⟩ := Prod.mk.inj same
      obtain rfl : stepRun.gathering.external = external := Option.some.inj isExternal
      have value : stepRun.gathering.external ≠ .void := stepRun.run.external_ne_void
      by_cases dependent : stepRun.run.main ∈ stepRun.run.dependents
      · obtain ⟨output, whole, threaded⟩ := stepRun.run.delivers_outputs isOut dependent
        obtain ⟨trimmed, delivers⟩ := threaded.pruned stepRun.pruned stepRun.result_enters
        have kept := rest.keeps
          (fun shader => (∃ main body, shader.program.Delivers stepRun.gathering.internal
              stepRun.gathering.external stepRun.gathering.outer (stepRun.run.inst stepRun.run.main)
              output main body) ∧
            (∀ layout ∈ stepRun.gathering.outer, shader.program.Inert layout.convert) ∧
            shader.program.Returns stepRun.gathering.external)
          (fun step _ ⟨delivers, inert, returns⟩ =>
            ⟨step.delivers delivers inert returns value,
              fun layout isOuter => step.inert (inert layout isOuter), step.returns returns value⟩)
          nextOrderly
          ⟨⟨_, _, delivers⟩, fun _ => stepRun.convert_inert, stepRun.returns_outputs isOut dependent⟩
        obtain ⟨-, ⟨main, body, final⟩, -⟩ := kept
        exact ⟨_, _, _, output, main, body, rfl, stepRun.run.external_eq_internal_iff, final⟩
      · -- The entry point returns something else, and no later category makes it return this struct.
        have never := rest.keeps
          (fun shader => stepRun.gathering.external.index < shader.program.tables.types.size ∧
            ¬ shader.program.Returns stepRun.gathering.external)
          (fun step _ ⟨inside, other⟩ => ⟨Nat.lt_of_lt_of_le inside step.evolves.size_types,
            step.not_returns other inside⟩)
          nextOrderly ⟨stepRun.external_known, fun now => ?_⟩
        · exact absurd returns never.2.2
        · rcases stepRun.returns_cases now with ⟨main, entry, -, known, same⟩ | ⟨-, depends, -⟩
          · have old := functions.returns known
            rw [same] at old
            exact absurd old (Nat.not_lt.mpr (stepRun.run.external_new isOut))
          · exact dependent depends
    · exact inductionHypothesis nextOrderly (stepRun.result_functions functions) later returns

/-! ## All categories -/

/-- Right before every return, and nowhere else, an internal instance is converted into the one that
is returned. The conversion function is defined right after the external struct. -/
structure Program.ConvertsAtExits (program : Program) (internal external : TypeId)
    (main : FunctionId) (body : Block) (inner output : VariableId) (convert : FunctionId) :
    Prop where
  isLocal : program.tables.IsLocal inner internal
  declared : .declare inner none ∈ body.stmts
  follows : Global.Follows external convert program.globals
  before : ∀ part : Block, part.Within body → ∀ front value back,
    part = front ++ .ret value :: back →
      ∃ rest, front = rest ++ [.eval (.call convert [.var inner, .var output])]
  only : ∀ part : Block, part.Within body → ∀ front stmt back, part = front ++ stmt :: back →
    (∃ root ∈ stmt.ownExprs, convert ∈ root.calls) →
      stmt = .eval (.call convert [.var inner, .var output]) ∧
        ∃ rest, back = .ret (some (.var output)) :: rest
  elsewhere : ∀ definition ∈ program.definitions, definition.1 ≠ main →
    convert ∉ Block.calls definition.2

/-- Every exit of the entry point returns one local variable, and the body ends with such an exit.
-/
structure Program.HandsOver (program : Program) (pair : Scoped TypeId) (external : TypeId)
    (main : FunctionId) (body : Block) (output : VariableId) : Prop where
  isLocal : program.tables.IsLocal output external
  declared : .declare output none ∈ body.stmts
  returns : ∀ value, .ret value ∈ body.stmts → value = some (.var output)
  ends : Block.EndsIn [.ret (some (.var output))] body
  converts : pair.internal ≠ some external → ∃ internal inner convert,
    pair.internal = some internal ∧
      program.ConvertsAtExits internal external main body inner output convert

namespace Program.Delivers

variable {program : Program} {internal external : TypeId} {inner output : VariableId}
  {main : FunctionId} {body : Block}

/-- Where the layouts differ, every exit converts. -/
theorem convertsAtExits {layout : OuterLayout}
    (delivers : program.Delivers internal external (some layout) inner output main body) :
    program.ConvertsAtExits internal external main body inner output layout.convert := by
  have flat : ∀ stmt ∈ Plan.handover (some layout) inner output, stmt.inner = [] := by
    simp [Plan.handover, Plan.convert, Stmt.inner]
  refine ⟨delivers.innerLocal, delivers.innerDeclared, delivers.follows layout rfl,
    fun part within front value back split => ?_,
    fun part within front stmt back split calls => ?_,
    fun definition defined other called => ?_⟩
  · exact (delivers.made.within flat within).converts_before split
  · obtain ⟨root, own, called⟩ := calls
    exact (delivers.made.within flat within).converts_only split own called
  · obtain ⟨args, differs⟩ := (delivers.elsewhere layout rfl definition defined other).call called
    exact differs rfl

/-- The body ends with a return. -/
theorem endsInReturn {outer : Option OuterLayout}
    (delivers : program.Delivers internal external outer inner output main body) :
    Block.EndsIn [.ret (some (.var output))] body := by
  have shorter {front ending whole : Block} (ends : Block.EndsIn (front ++ ending) whole) :
      Block.EndsIn ending whole := by
    induction ends with
    | here before =>
      rw [← List.append_assoc]
      exact .here _
    | inside before _ inBody => exact .inside before inBody
  exact shorter delivers.ends

end Program.Delivers

/-- An entry point that ends up with returning the struct of the outputs hands them over at every
exit. -/
theorem Shader.lower_hands_over {shader lowered : Shader} {supplied : Option VariableId}
    {structs : CategoryStructs} (orderly : shader.program.Orderly)
    (functions : shader.program.tables.FunctionsClosed)
    (lowers : shader.lower supplied = .ok (structs, lowered)) {category : Category}
    {pair : Scoped TypeId} {external : TypeId} (among : (category, pair) ∈ structs)
    (isOut : category.isOut = true) (isExternal : pair.external = some external)
    (returns : lowered.program.Returns external) :
    ∃ main body output, lowered.program.Enters main ∧ (main, body) ∈ lowered.program.definitions ∧
      lowered.program.HandsOver pair external main body output := by
  obtain ⟨internal, outer, inner, output, main, body, isInternal, same, delivers⟩ :=
    (Lowering.lowerCategories_inv lowers).delivers orderly functions among isOut isExternal returns
  refine ⟨main, body, output, delivers.enters, delivers.defined, delivers.outputLocal,
    delivers.outputDeclared, fun value member => ?_, delivers.endsInReturn, fun differs => ?_⟩
  · have returned := delivers.made.returns (fun proceeds => proceeds.stays) member
    cases outer <;>
      simpa [Plan.handover, Plan.convert, Block.stmts, Stmt.nodesOfAll, Stmt.nodes] using returned
  · cases outer with
    | none => exact absurd (isInternal.trans (congrArg some (same.mpr rfl).symm)) differs
    | some layout => exact ⟨internal, inner, layout.convert, isInternal, delivers.convertsAtExits⟩

/-- A vertex shader with an array among its outputs, which leaves early under a condition. -/
def Shader.exiting : Shader where
  program := {
    tables := {
      stage := .vertex
      types := (predefinedTypes ++ [Ty.array .float 2]).toArray
      vars := #[
        { name := ⟨"weights", .shaderInterface⟩, type := ⟨21⟩, decorations := [.output],
          scope := .global }]
      functions := #[.named "main" [] .void .notApplicable] }
    globals := [.var ⟨0⟩,
      .definition ⟨0⟩ [.ifThen (.const (.bool true)) [.ret none],
        .assign (.index (.var ⟨0⟩) (.const (.int 1))) (.const (.float 0))]] }

/-- The shader is orderly. -/
theorem Shader.exiting_orderly : exiting.program.Orderly := by decide +kernel

/-- Both exits of `Shader.exiting` convert the outputs and return them. -/
theorem Shader.lower_hands_over_exiting : ∃ structs lowered pair external,
    exiting.lower none = .ok (structs, lowered) ∧ (.vertexOut, pair) ∈ structs ∧
      pair.external = some external ∧ pair.internal ≠ some external ∧
      ∃ main body output, lowered.program.Enters main ∧
        (main, body) ∈ lowered.program.definitions ∧
        lowered.program.HandsOver pair external main body output := by
  obtain ⟨⟨structs, lowered⟩, lowers, found⟩ := Outcome.exists_ok_of_any
    (by decide +kernel : ((exiting.lower none).toOption.any fun found =>
      found.1.any fun entry => entry.1 == .vertexOut && entry.2.external.any fun external =>
        entry.2.internal != some external && found.2.program.definitions.all fun definition =>
          found.2.program.tables.functions[definition.1.index]?.any fun function =>
            !function.isMain || function.returnType == external) = true)
  obtain ⟨⟨category, pair⟩, among, isFound⟩ := List.any_eq_true.mp found
  simp only [Bool.and_eq_true, beq_iff_eq, Option.any_eq_true, bne_iff_ne, List.all_eq_true,
    Bool.or_eq_true, Bool.not_eq_true'] at isFound
  obtain ⟨rfl, external, isExternal, differs, mains⟩ := isFound
  obtain ⟨loweredOrderly, -⟩ := (Lowering.lowerCategories_inv lowers).keeps (fun _ => True)
    (fun _ _ _ => trivial) exiting_orderly trivial
  obtain ⟨main, enters⟩ := loweredOrderly.enters
  obtain ⟨body, defined⟩ := enters.defined
  obtain ⟨entry, known, isMain⟩ := enters.isMain _ defined
  obtain ⟨other, otherKnown, returns⟩ := mains _ defined
  obtain rfl := Option.some.inj (known.symm.trans otherKnown)
  exact ⟨structs, lowered, pair, external, lowers, among, isExternal, differs,
    lower_hands_over exiting_orderly (by decide) lowers among rfl
      isExternal ⟨main, entry, enters, known, returns.resolve_left (by simp [isMain.mpr])⟩⟩

end ShaderPipeline
