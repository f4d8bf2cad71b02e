import ShaderPipeline.Proofs.OrderlyRun

/-!
# What a body becomes

A category changes the body of every function by its substitution, which does
nothing in a function that does not depend on it. Around the body of the entry
point it may put statements of its own, and then it prunes. The only body that
comes in is that of the conversion function, which calls nothing. So a rule about
calls holds after a category if the substitution keeps it and the conversions
around the body of the entry point obey it.
-/

namespace ShaderPipeline

namespace Expr

/-- A rule about the calls in an expression. -/
def Calling (rule : FunctionId → List Expr → Prop) : Expr → Prop
  | call callee args => rule callee args
  | _ => True

variable {rule other : FunctionId → List Expr → Prop} {change : Substitution}

/-- An expression that calls nothing obeys every rule about calls. -/
theorem calling_of_uses {names : VariableId → Prop} {operands : Expr → Prop} {expr : Expr}
    (uses : expr.Every (Uses names (fun _ => False) operands)) : expr.Every (Calling rule) :=
  uses.imp fun node used => by
    cases node with
    | call => exact used.elim
    | _ => trivial

/-- A weaker rule about calls, where it may count on what the calls are part of. -/
theorem Every.calling {expr : Expr} (every : expr.Every (Calling rule))
    (weaker : ∀ callee args, .call callee args ∈ expr.nodes → rule callee args →
      other callee args) : expr.Every (Calling other) := by
  intro node inside
  have obeys := every node inside
  cases node with
  | call callee args => exact weaker callee args inside obeys
  | _ => trivial

/-- A substitution that puts in no calls but those that stand for calls. -/
theorem calling_subst (symbols : ∀ id, (change.symbol id).Every (Calling other))
    (calls : ∀ callee args, rule callee args →
      (∀ arg ∈ args, (arg.subst change).Every (Calling other)) →
        (change.call callee (args.map (subst change))).Every (Calling other))
    {expr : Expr} (every : expr.Every (Calling rule)) :
    (expr.subst change).Every (Calling other) := by
  induction expr with
  | const value => exact every_const.mpr trivial
  | var id => exact symbols id
  | field base position inBase => exact every_field.mpr ⟨trivial, inBase (every_field.mp every).2⟩
  | index base position inBase inPosition =>
    obtain ⟨-, first, second⟩ := every_index.mp every
    exact every_index.mpr ⟨trivial, inBase first, inPosition second⟩
  | unary op operand inOperand =>
    exact every_unary.mpr ⟨trivial, inOperand (every_unary.mp every).2⟩
  | binary op left right inLeft inRight =>
    obtain ⟨-, first, second⟩ := every_binary.mp every
    exact every_binary.mpr ⟨trivial, inLeft first, inRight second⟩
  | construct type args inArgs =>
    rw [subst, substAll_eq_map, every_construct, List.forall_mem_map]
    exact ⟨trivial, fun arg member => inArgs arg member ((every_construct.mp every).2 arg member)⟩
  | call callee args inArgs =>
    obtain ⟨obeys, each⟩ := every_call.mp every
    rw [subst, substAll_eq_map]
    exact calls callee args obeys fun arg member => inArgs arg member (each arg member)
  | sample sampler coordinates inSampler inCoordinates =>
    obtain ⟨-, first, second⟩ := every_sample.mp every
    exact every_sample.mpr ⟨trivial, inSampler first, inCoordinates second⟩
  | addressOf operand inOperand =>
    exact every_addressOf.mpr ⟨trivial, inOperand (every_addressOf.mp every).2⟩

end Expr

/-- Connecting textures calls nothing. -/
theorem Plan.connect_calling (holder : VariableId) (slots : List TextureSlot)
    (params : List Param) {rule : FunctionId → List Expr → Prop} :
    Block.Every (Expr.Calling rule) (connect holder slots params) :=
  connect_every slots trivial (fun _ _ => trivial) (fun _ _ => trivial) (fun _ => trivial)
    fun _ _ => ⟨trivial, trivial⟩

/-- Setting start values calls nothing. -/
theorem Plan.startValues_calling (plan : Plan) (holder : VariableId)
    {rule : FunctionId → List Expr → Prop} :
    Block.Every (Expr.Calling rule) (plan.startValues holder) :=
  startValues_every trivial (fun _ _ => trivial) fun _ => trivial

/-- The statements around the old body of an entry point call the conversion function at most. -/
theorem Plan.Surrounds.calling {plan : Plan} {base tables : Tables} {locals : Scoped VariableId}
    {function entry : Function} {internal : VariableId} {entering leaving : Block}
    {rule : FunctionId → List Expr → Prop}
    (surrounds : plan.Surrounds base locals tables function internal entry entering leaving)
    (enters : ∀ outer param, plan.category.entry = .structParam → plan.outer = some outer →
      tables.vars[param.index]? = some plan.structEntry →
        rule outer.convert [.var param, .var internal])
    (leaves : ∀ outer external, plan.category.entry = .returnsStruct → plan.outer = some outer →
      locals.external = some external → rule outer.convert [.var internal, .var external]) :
    Block.Every (Expr.Calling rule) entering ∧ Block.Every (Expr.Calling rule) leaving :=
  surrounds.every (fun _ => trivial) (fun _ _ => trivial) (fun _ => trivial) (fun _ _ => trivial)
    (fun _ slots params => connect_calling internal slots params) enters leaves

namespace CategoryRun

variable {shader result : Shader} {category : Category} {supplied : Option VariableId}
  (run : CategoryRun shader category supplied result)

/-- A variable from before the run. -/
def Old (shader : Shader) (id : VariableId) : Prop := id.index < shader.program.tables.vars.size

/-- The variables that the body of a function may mention. -/
def Mentions (function : FunctionId) (id : VariableId) : Prop :=
  Old shader id ∧ (id ∈ run.gathering.members → function ∈ run.dependents)

/-- The functions that the body of a function may call. -/
def Calls (function callee : FunctionId) : Prop :=
  callee ≠ run.main ∧ callee.index < shader.program.tables.functions.size ∧
    (callee ∈ run.dependents → function ∈ run.dependents)

/-- What an old body mentions and calls. -/
theorem body_uses {function : FunctionId} {body : Block}
    (defined : (function, body) ∈ shader.program.definitions) {operands : Expr → Prop}
    (addresses : Block.Every (Expr.Uses (fun _ => True) (fun _ => True) operands) body) :
    Block.Every (Expr.Uses (run.Mentions function) (run.Calls function) operands) body := by
  have gathered := run.gathered_defined defined
  refine Block.every_uses (fun id mentioned => ⟨?_, fun member => ?_⟩)
    (fun callee called => ?_) addresses
  · obtain ⟨entry, known, -⟩ := run.orderly.mentioned defined mentioned
    exact (Array.getElem?_eq_some_iff.mp known).1
  · exact Program.mem_dependents_of_symbol run.once gathered mentioned
      (List.contains_iff_mem.mpr member)
  · obtain ⟨helps, known⟩ := called_helps run.orderly defined called
    exact ⟨run.ne_main_of_helps helps, known,
      fun dependent => Program.mem_dependents_of_call run.once gathered called dependent⟩

/-- A body mentions and calls no more than its function may. -/
theorem body_sees {function : FunctionId} {body : Block}
    (defined : (function, body) ∈ shader.program.definitions) :
    Block.Every (Expr.Uses (run.Mentions function) (run.Calls function) fun _ => True) body :=
  run.body_uses defined fun _ _ node _ => by cases node <;> trivial

/-- The body of a function that does not depend on the category stays as it is. -/
theorem subst_free {function : FunctionId} {body : Block}
    (defined : (function, body) ∈ shader.program.definitions)
    (outside : function ∉ run.dependents) : Block.subst body (run.change function) = body := by
  have uses := run.body_sees defined
  refine Block.subst_eq_self (fun callee called => ?_) fun id mentioned => ?_
  · obtain ⟨args, -, -, keeps⟩ := uses.call called
    funext args
    simp [change, Gathering.threading, mt keeps outside]
  · obtain ⟨-, keeps⟩ := uses.symbol mentioned
    simp [change, Gathering.threading, mt keeps outside]

/-- The new body of a function around its old one, which is already substituted. -/
inductive Frames (function : FunctionId) (core : Block) : Block → Prop where
  | bare (handed : function = run.main → run.main ∈ run.dependents → run.plan.hasLocal = false) :
      Frames function core core
  | around {entry copied : Function} {entering leaving : Block} (enters : function = run.main)
      (dependent : run.main ∈ run.dependents) (isLocal : run.plan.hasLocal = true)
      (known : shader.program.tables.functions[run.main.index]? = some entry)
      (copiedKnown : result.program.tables.functions[(run.replace run.main).index]? = some copied)
      (surrounds : run.plan.Surrounds run.thread.base run.thread.locals result.program.tables entry
        (run.inst run.main) copied entering leaving) :
      Frames function core (entering ++ .block (run.plan.nest leaving core) :: leaving)

/-- An old definition is turned into one that has its substituted body in it. -/
theorem turns_frames {function : FunctionId} {body : Block} {turned : FunctionId × Block}
    (defined : (function, body) ∈ shader.program.definitions)
    (turns : run.Turns (function, body) turned) :
    turned.1 = run.replace function ∧
      run.Frames function (Block.subst body (run.change function)) turned.2 := by
  cases turns with
  | free body outside =>
    rw [run.subst_free defined outside]
    exact ⟨(run.replace_eq_self outside).symm,
      .bare fun isMain dependent => absurd (isMain ▸ dependent) outside⟩
  | helper _ _ helps => exact ⟨rfl, .bare fun isMain => absurd isMain helps⟩
  | handed _ _ noLocal => exact ⟨rfl, .bare fun _ _ => noLocal⟩
  | wrapped body dependent isLocal known copiedKnown surrounds =>
    exact ⟨rfl, .around rfl dependent isLocal known copiedKnown surrounds⟩

/-- Every definition of the result is that of the conversion function, or has the substituted body
of an old one in it. -/
theorem result_cases {definition : FunctionId × Block}
    (defined : definition ∈ result.program.definitions) :
    (∃ bridge, run.gather.bridge = some bridge ∧ definition = (bridge.function, bridge.body)) ∨
      ∃ function body, (function, body) ∈ shader.program.definitions ∧
        definition.1 = run.replace function ∧
        run.Frames function (Block.subst body (run.change function)) definition.2 := by
  obtain ⟨⟨function, body⟩, gathered, turns⟩ := Outcome.forall₂_exists_left run.turns defined
  rcases run.gathered_cases gathered with old | ⟨bridge, bridged, same⟩
  · exact .inr ⟨function, body, old, run.turns_frames old turns⟩
  · have free : function ∉ run.dependents := (Prod.mk.inj same).1 ▸ run.bridge_free bridged
    cases turns with
    | free => exact .inl ⟨bridge, bridged, same⟩
    | helper _ dependent | handed _ dependent | wrapped _ dependent => exact absurd dependent free

/-- The substituted body of every old definition is in one of the result. -/
theorem result_frames {function : FunctionId} {body : Block}
    (defined : (function, body) ∈ shader.program.definitions) :
    ∃ whole, (run.replace function, whole) ∈ result.program.definitions ∧
      run.Frames function (Block.subst body (run.change function)) whole := by
  obtain ⟨⟨name, whole⟩, there, turns⟩ :=
    Outcome.forall₂_exists_right run.turns (run.gathered_defined defined)
  obtain ⟨rfl, frames⟩ := run.turns_frames defined turns
  exact ⟨whole, there, frames⟩

/-- The conversion function of a category, as the tables of the result hold it. -/
structure Converts (outer : OuterLayout) (rules : LayoutRules) (first : Nat) : Prop where
  hasRules : category.layoutRules = some rules
  new : outer.convert.index = shader.program.tables.functions.size
  known : outer.convert.index < run.gathered.program.tables.functions.size
  free : outer.convert ∉ run.dependents
  function : result.program.tables.functions[outer.convert.index]? =
    some (Layout.convertFunction rules.conversion (category.structName .external) first)
  internal : result.program.tables.vars[first]? =
    some (Layout.convertEntry "original" run.gathering.internal)
  external : result.program.tables.vars[first + 1]? =
    some (Layout.convertEntry "modified" outer.struct)

/-- A category with an external layout has a conversion function in the result. -/
theorem converts {outer : OuterLayout} (isOuter : run.gathering.outer = some outer) :
    ∃ rules, run.Converts outer rules run.gather.middle.vars.size := by
  rw [run.gather.outer] at isOuter
  obtain ⟨bridge, bridged, rfl⟩ := Option.map_eq_some_iff.mp isOuter
  obtain ⟨-, grows, -⟩ := run.gather.internal run.orderly.sound run.orderly.closed
  rcases run.gather.bridged with ⟨none, -⟩ |
    ⟨rules, other, _, _, _, hasRules, isOther, -, -, bridges, -⟩
  · simp [none] at bridged
  · obtain rfl : other = bridge := by simpa [bridged] using isOther.symm
    have added (offset : Nat) (entry : Variable)
        (listed : [Layout.convertEntry "original" run.gathering.internal,
          Layout.convertEntry "modified" other.struct][offset]? = some entry) :
        result.program.tables.vars[run.gather.middle.vars.size + offset]? = some entry := by
      refine run.threaded_adds.vars ?_
      rw [bridges.vars, Tables.addVariables]
      simpa [Array.getElem?_append_right] using listed
    have pushed : run.gathered.program.tables.functions[other.function.index]? =
        some (Layout.convertFunction rules.conversion (category.structName .external)
          run.gather.middle.vars.size) := by
      rw [bridges.functions, bridges.function]
      exact Array.getElem?_push_size
    refine ⟨rules, hasRules, ?_,
      (Array.getElem?_eq_some_iff.mp pushed).1, run.bridge_free bridged,
      run.threaded_adds.functions pushed, added 0 _ rfl, added 1 _ rfl⟩
    simp only [bridges.function, grows.sameFunctions]

/-- The parameters of a conversion function are its two structs. -/
theorem Converts.params {run : CategoryRun shader category supplied result} {outer : OuterLayout}
    {rules : LayoutRules} {first : Nat} (converts : run.Converts outer rules first) :
    ∀ param ∈ (Layout.convertFunction rules.conversion (category.structName .external) first).params,
      ∃ text struct, result.program.tables.vars[param.variableId.index]? =
        some (Layout.convertEntry text struct) := by
  have both := And.intro converts.internal converts.external
  intro param member
  cases conversion : rules.conversion <;>
    simp only [Layout.convertFunction, Layout.convertParams, conversion, List.mem_pair] at member <;>
    rcases member with rfl | rfl
  · exact ⟨_, _, both.1⟩
  · exact ⟨_, _, both.2⟩
  · exact ⟨_, _, both.2⟩
  · exact ⟨_, _, both.1⟩

/-- What is no global variable is not gathered. -/
theorem symbol_inner {function : FunctionId} {id : VariableId} {entry : Variable}
    (known : shader.program.tables.vars[id.index]? = some entry) (inner : entry.scope ≠ .global) :
    (run.change function).symbol id = .var id := by
  have free : id ∉ run.gathering.members := by
    intro member
    obtain ⟨other, declarable⟩ := run.member_declarable member
    obtain rfl : other = entry := by simpa [known] using declarable.known.symm
    exact inner declarable.scope
  simp [change, Gathering.threading, free]

/-- A rule about calls in a substituted expression, from one about calls in the expression. -/
theorem calling_change {rule other : FunctionId → List Expr → Prop} {function : FunctionId}
    (threaded : ∀ {callee : FunctionId} {args : List Expr}, callee ∈ run.dependents →
      rule callee args → other (run.replace callee)
        (.var (run.inst function) :: args.map (Expr.subst (run.change function))))
    (kept : ∀ {callee : FunctionId} {args : List Expr}, callee ∉ run.dependents →
      rule callee args → other callee (args.map (Expr.subst (run.change function))))
    {expr : Expr} (every : expr.Every (Expr.Calling rule)) :
    (expr.subst (run.change function)).Every (Expr.Calling other) := by
  refine Expr.calling_subst (fun id => ?_) (fun callee args obeys each => ?_) every
  · simp only [change, Gathering.threading]
    split
    · split <;> simp [Expr.Calling]
    · simp [Expr.Calling]
  · have inArgs : ∀ arg ∈ args.map (Expr.subst (run.change function)),
        arg.Every (Expr.Calling other) := List.forall_mem_map.mpr each
    simp only [change, Gathering.threading]
    split
    case isTrue dependent =>
      exact Expr.every_call.mpr ⟨threaded dependent obeys,
        List.forall_mem_cons.mpr ⟨by simp [Expr.Calling], inArgs⟩⟩
    case isFalse free => exact Expr.every_call.mpr ⟨kept free obeys, inArgs⟩

/-- A call in the body of a function, with what its arguments mention and call. -/
structure Called (function callee : FunctionId) (args : List Expr) : Prop where
  calls : run.Calls function callee
  args : ∀ arg ∈ args, arg.Every
    (Expr.Uses (run.Mentions function) (run.Calls function) fun _ => True)

/-- A rule about calls in the substituted body of a function, from one about calls in the old
body. -/
theorem calling_subst {rule other : FunctionId → List Expr → Prop} {function : FunctionId}
    {body : Block} (defined : (function, body) ∈ shader.program.definitions)
    (before : Block.Every (Expr.Calling rule) body)
    (threaded : ∀ {callee : FunctionId} {args : List Expr}, run.Called function callee args →
      callee ∈ run.dependents → rule callee args → other (run.replace callee)
        (.var (run.inst function) :: args.map (Expr.subst (run.change function))))
    (kept : ∀ {callee : FunctionId} {args : List Expr}, run.Called function callee args →
      callee ∉ run.dependents → rule callee args →
        other callee (args.map (Expr.subst (run.change function)))) :
    Block.Every (Expr.Calling other) (Block.subst body (run.change function)) := by
  have uses := run.body_sees defined
  intro root member
  obtain ⟨source, own, rfl⟩ := Block.mem_roots_subst.mp member
  have called : source.Every (Expr.Calling fun callee args =>
      run.Called function callee args ∧ rule callee args) := by
    refine (before source own).calling fun callee args inside obeys => ?_
    obtain ⟨calls, each⟩ := Expr.every_call.mp ((uses source own).part inside)
    exact ⟨⟨calls, each⟩, obeys⟩
  exact run.calling_change (fun dependent obeys => threaded obeys.1 dependent obeys.2)
    (fun free obeys => kept obeys.1 free obeys.2) called

end CategoryRun

/-- A rule about calls holds after a category, if it holds of the calls that stand for the old ones
and of the conversions around the body of the entry point. -/
theorem StepRun.result_calling {shader result : Shader} {category : Category}
    {supplied : Option VariableId} (step : StepRun shader category supplied result)
    {rule other : FunctionId → List Expr → Prop}
    (before : ∀ definition ∈ shader.program.definitions,
      Block.Every (Expr.Calling rule) definition.2)
    (threaded : ∀ {function callee : FunctionId} {args : List Expr},
      step.run.Called function callee args → callee ∈ step.run.dependents → rule callee args →
        other (step.run.replace callee)
          (.var (step.run.inst function) :: args.map (Expr.subst (step.run.change function))))
    (kept : ∀ {function callee : FunctionId} {args : List Expr},
      step.run.Called function callee args → callee ∉ step.run.dependents → rule callee args →
        other callee (args.map (Expr.subst (step.run.change function))))
    (enters : ∀ outer param, step.run.main ∈ step.run.dependents →
      category.entry = .structParam → step.gathering.outer = some outer →
      step.threaded.program.tables.vars[param.index]? = some step.run.plan.structEntry →
        other outer.convert [.var param, .var (step.run.inst step.run.main)])
    (leaves : ∀ outer external, step.run.main ∈ step.run.dependents →
      category.entry = .returnsStruct → step.gathering.outer = some outer →
      step.run.thread.locals.external = some external →
        other outer.convert [.var (step.run.inst step.run.main), .var external]) :
    ∀ definition ∈ result.program.definitions,
      Block.Every (Expr.Calling other) definition.2 := by
  intro definition defined
  obtain ⟨⟨name, whole⟩, there, -, trims⟩ :=
    Outcome.forall₂_exists_left step.pruned.definitions defined
  refine trims.every ?_
  rcases step.run.result_cases there with ⟨bridge, bridged, same⟩ | ⟨function, body, old, -, frames⟩
  · obtain ⟨conversion, placements, isBody⟩ := step.run.gather.bridge_body bridged
    rw [(Prod.mk.inj same).2, isBody]
    exact fun root own => Expr.calling_of_uses (Layout.convertBody_converting _ _ _ root own)
  · have core := step.run.calling_subst old (before _ old) threaded kept
    generalize Block.subst body (step.run.change function) = inner at core frames
    cases frames with
    | bare => exact core
    | around _ dependent _ _ _ surrounds =>
      have sameCategory : step.run.plan.category = category := step.run.gather.sameCategory
      obtain ⟨entering, leaving⟩ := surrounds.calling
        (fun outer param shape => enters outer param dependent (sameCategory ▸ shape))
        fun outer external shape => leaves outer external dependent (sameCategory ▸ shape)
      refine Block.every_append.mpr ⟨entering, Block.every_cons.mpr ⟨?_, leaving⟩⟩
      rw [Stmt.roots_block]
      unfold Plan.nest
      split
      · exact Plan.every_replaceReturns core leaving
      · exact core

/-- What every category keeps, a run keeps, and the program stays orderly. -/
theorem LoweringRun.keeps {supplied : Option VariableId} {categories : List Category}
    {shader result : Shader} {structs : CategoryStructs}
    (run : LoweringRun supplied categories shader structs result) (kept : Shader → Prop)
    (each : ∀ {category : Category} {before after : Shader}
      (step : StepRun before category (category.suppliedTo supplied) after),
      (category, step.gathering.structs) ∈ structs → kept before → kept after)
    (orderly : shader.program.Orderly) (holds : kept shader) :
    result.program.Orderly ∧ kept result := by
  induction run with
  | done shader => exact ⟨orderly, holds⟩
  | passed unclaimed rest inductionHypothesis =>
    exact inductionHypothesis (fun step among => each step (List.mem_cons_of_mem _ among)) orderly
      holds
  | lowered step rest inductionHypothesis =>
    obtain ⟨stepRun, rfl, -⟩ := step.exists_stepRun orderly Category.suppliedTo_only
    exact inductionHypothesis (fun step among => each step (List.mem_cons_of_mem _ among))
      (stepRun.result_orderly step.valid) (each stepRun List.mem_cons_self holds)

end ShaderPipeline
