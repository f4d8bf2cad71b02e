import ShaderPipeline.Proofs.OrderlyRun
import ShaderPipeline.Proofs.Remaining

/-!
# The order of declarations

Lowering a category takes declarations of variables out of a program, puts those
of structs and of a conversion function in, and lets other functions stand for
the functions that are declared. `Aligned` says that nothing else happens to the
sequence of declarations. A conversion function refers to its own parameters
only, so no later category replaces it.
-/

namespace ShaderPipeline

/-! ## Aligned declarations -/

/-- The same declaration, of the function that stands for the old one if it declares a function. -/
inductive Global.Renames (stands : FunctionId → FunctionId) : Global → Global → Prop where
  | struct (type : TypeId) : Renames stands (.struct type) (.struct type)
  | var (id : VariableId) : Renames stands (.var id) (.var id)
  | prototype (function : FunctionId) :
      Renames stands (.prototype function) (.prototype (stands function))
  | definition (function : FunctionId) (body changed : Block) :
      Renames stands (.definition function body) (.definition (stands function) changed)

/-- Without the inserted declarations, the second list is the first one without the removed
variables, with other functions in the places of the functions. -/
inductive Aligned (inserted : Global → Prop) (removed : VariableId → Prop)
    (stands : FunctionId → FunctionId) : List Global → List Global → Prop where
  | nil : Aligned inserted removed stands [] []
  | keep {first second : Global} {before after : List Global}
      (renames : first.Renames stands second)
      (rest : Aligned inserted removed stands before after) :
      Aligned inserted removed stands (first :: before) (second :: after)
  | remove {id : VariableId} {before after : List Global} (gone : removed id)
      (rest : Aligned inserted removed stands before after) :
      Aligned inserted removed stands (.var id :: before) after
  | insert {global : Global} {before after : List Global} (new : inserted global)
      (rest : Aligned inserted removed stands before after) :
      Aligned inserted removed stands before (global :: after)

/-- If every function stands for itself, a declaration is its own renaming. -/
theorem Global.Renames.refl (global : Global) : global.Renames id global := by
  cases global with
  | struct type => exact .struct type
  | var id => exact .var id
  | prototype function => exact .prototype function
  | definition function body => exact .definition function body body

/-- Pruning keeps what a declaration declares. -/
theorem Prune.Trimmed.renames {refs marks : List VariableId} {global trimmed : Global}
    (trims : Prune.Trimmed refs marks global trimmed) : global.Renames id trimmed := by
  cases trims with
  | struct type => exact .struct type
  | var id => exact .var id
  | prototype function => exact .prototype function
  | @definition function body trimmed => exact .definition function body trimmed

namespace Aligned

variable {inserted also both : Global → Prop} {removed gone lost : VariableId → Prop}
  {stands later : FunctionId → FunctionId} {before middle after news : List Global}

/-- Declarations that are only renamed are aligned. -/
theorem of_forall₂ (each : List.Forall₂ (Global.Renames stands) before after) :
    Aligned inserted removed stands before after := by
  induction each with
  | nil => exact .nil
  | cons head _ inductionHypothesis => exact .keep head inductionHypothesis

/-- Every list of declarations is aligned with itself. -/
theorem refl (globals : List Global) : Aligned inserted removed id globals globals :=
  of_forall₂ (List.forall₂_same.mpr fun global _ => .refl global)

/-- Leaving out declarations of variables. -/
theorem filter {keeps : Global → Bool} (globals : List Global)
    (drops : ∀ global ∈ globals, keeps global = false → ∃ id, global = .var id ∧ removed id) :
    Aligned inserted removed id globals (globals.filter keeps) := by
  induction globals with
  | nil => exact .nil
  | cons global globals inductionHypothesis =>
    rw [List.forall_mem_cons] at drops
    cases kept : keeps global with
    | true =>
      rw [List.filter_cons_of_pos kept]
      exact .keep (.refl global) (inductionHypothesis drops.2)
    | false =>
      obtain ⟨id, rfl, isRemoved⟩ := drops.1 kept
      rw [List.filter_cons_of_neg (by simp [kept])]
      exact .remove isRemoved (inductionHypothesis drops.2)

/-- Inserted declarations may stand in front. -/
theorem prepend (new : ∀ global ∈ news, inserted global)
    (aligned : Aligned inserted removed stands before after) :
    Aligned inserted removed stands before (news ++ after) := by
  induction news with
  | nil => exact aligned
  | cons global news inductionHypothesis =>
    rw [List.forall_mem_cons] at new
    exact .insert new.1 (inductionHypothesis new.2)

/-- Putting declarations in at a place. -/
theorem insertAt (new : ∀ global ∈ news, inserted global) (globals : List Global) (place : Nat) :
    Aligned inserted removed id globals (globals.take place ++ news ++ globals.drop place) := by
  induction globals generalizing place with
  | nil => simpa using prepend new (refl [])
  | cons global globals inductionHypothesis =>
    cases place with
    | zero => simpa using prepend new (refl (global :: globals))
    | succ place => exact .keep (.refl global) (inductionHypothesis place)

/-- Two alignments in a row. What the first one inserts, the second one keeps. -/
theorem trans (first : Aligned inserted removed stands before middle)
    (second : Aligned also gone later middle after)
    (noVariable : ∀ id, ¬ inserted (.var id))
    (insertedStays : ∀ global changed, inserted global → global.Renames later changed →
      both changed)
    (insertedToo : ∀ global, also global → both global)
    (removedToo : ∀ id, removed id → lost id) (goneToo : ∀ id, gone id → lost id) :
    Aligned both lost (later ∘ stands) before after := by
  -- Along the second alignment, and at every declaration of it along the first one.
  induction second generalizing before with
  | nil =>
    generalize isNil : [] = middle at first
    induction first with
    | nil => exact .nil
    | keep | insert => cases isNil
    | remove isRemoved _ inductionHypothesis =>
      exact .remove (removedToo _ isRemoved) (inductionHypothesis isNil)
  | @keep old changed middle after renames rest inductionHypothesis =>
    generalize isCons : old :: middle = whole at first
    induction first with
    | nil => cases isCons
    | keep head tail =>
      obtain ⟨rfl, rfl⟩ := List.cons.inj isCons
      refine .keep ?_ (inductionHypothesis tail)
      cases head with
      | struct type =>
        cases renames
        exact .struct type
      | var id =>
        cases renames
        exact .var id
      | prototype function =>
        cases renames
        exact .prototype function
      | definition function body =>
        cases renames
        exact .definition function body _
    | remove isRemoved _ inFirst => exact .remove (removedToo _ isRemoved) (inFirst isCons)
    | insert new tail =>
      obtain ⟨rfl, rfl⟩ := List.cons.inj isCons
      exact .insert (insertedStays _ _ new renames) (inductionHypothesis tail)
  | @remove id middle after isGone rest inductionHypothesis =>
    generalize isCons : Global.var id :: middle = whole at first
    induction first with
    | nil => cases isCons
    | keep head tail =>
      obtain ⟨rfl, rfl⟩ := List.cons.inj isCons
      cases head with
      | var => exact .remove (goneToo id isGone) (inductionHypothesis tail)
    | remove isRemoved _ inFirst => exact .remove (removedToo _ isRemoved) (inFirst isCons)
    | insert new =>
      obtain ⟨rfl, -⟩ := List.cons.inj isCons
      exact absurd new (noVariable id)
  | insert new _ inductionHypothesis => exact .insert (insertedToo _ new) (inductionHypothesis first)

/-- The function that stands for a declared one is declared. -/
theorem declared (aligned : Aligned inserted removed stands before after) {function : FunctionId}
    (member : function ∈ before.filterMap Global.function?) :
    stands function ∈ after.filterMap Global.function? := by
  induction aligned with
  | nil => simp at member
  | keep renames _ inductionHypothesis =>
    cases renames with
    | struct | var =>
      simpa [List.filterMap_cons, Global.function?] using inductionHypothesis member
    | prototype | definition =>
      simp only [List.filterMap_cons, Global.function?, List.mem_cons] at member ⊢
      exact member.imp (congrArg stands) inductionHypothesis
  | remove _ _ inductionHypothesis => exact inductionHypothesis member
  | @insert global _ after _ _ inductionHypothesis =>
    exact (List.Sublist.filterMap _ (List.sublist_cons_self global after)).subset
      (inductionHypothesis member)

end Aligned

/-! ## Conversion functions -/

/-- The function calls nothing and mentions no global variable. -/
def Program.Inert (program : Program) (function : FunctionId) : Prop :=
  ∃ body, (function, body) ∈ program.definitions ∧ (∀ callee, callee ∉ Block.calls body) ∧
    ∀ id ∈ Block.symbols body, id ∉ program.globalVariables

namespace StepRun

variable {shader result : Shader} {category : Category} {supplied : Option VariableId}
  (step : StepRun shader category supplied result)

/-- An inert function depends on no category. -/
theorem free_of_inert {function : FunctionId} (inert : shader.program.Inert function) :
    function ∉ step.run.dependents := by
  obtain ⟨body, defined, noCalls, noMentions⟩ := inert
  intro dependent
  rcases Program.mem_dependents_inv step.run.once (step.run.gathered_defined defined) dependent with
    ⟨id, mentioned, gathered⟩ | ⟨callee, called, -⟩
  · exact noMentions id mentioned
      (step.run.mem_members.mp (List.contains_iff_mem.mp gathered)).1
  · exact noCalls callee called

/-- A function that is still inert after the threading is inert after the pruning. -/
theorem inert_of_free {function : FunctionId} {body : Block}
    (defined : (function, body) ∈ step.run.gathered.program.definitions)
    (free : function ∉ step.run.dependents) (noCalls : ∀ callee, callee ∉ Block.calls body)
    (noMentions : ∀ id ∈ Block.symbols body, id ∉ shader.program.globalVariables) :
    result.program.Inert function := by
  have there := step.run.free_defined defined free
  obtain ⟨⟨_, trimmed⟩, kept, rfl, trims⟩ :=
    Outcome.forall₂_exists_right step.pruned.definitions there
  refine ⟨trimmed, kept, fun callee called => ?_, fun id mentioned declared => ?_⟩
  · obtain ⟨root, own, inside⟩ := Block.mem_calls_iff.mp called
    exact noCalls callee (Block.mem_calls_iff.mpr ⟨root, trims.roots_subset own, inside⟩)
  · obtain ⟨root, own, inside⟩ := Block.mem_symbols_iff.mp mentioned
    exact noMentions id (Block.mem_symbols_iff.mpr ⟨root, trims.roots_subset own, inside⟩)
      (step.globalVariables declared)

/-- An inert function stays inert. -/
theorem inert (step : StepRun shader category supplied result) {function : FunctionId}
    (inert : shader.program.Inert function) : result.program.Inert function := by
  obtain ⟨body, defined, noCalls, noMentions⟩ := inert
  exact step.inert_of_free (step.run.gathered_defined defined)
    (step.free_of_inert ⟨body, defined, noCalls, noMentions⟩) noCalls noMentions

/-- The conversion function of a category is inert. -/
theorem bridge_inert {bridge : Bridge} (bridged : step.run.gather.bridge = some bridge) :
    result.program.Inert bridge.function := by
  refine step.inert_of_free (step.run.bridge_gathered bridged) (step.run.bridge_free bridged)
    (step.run.bridge_silent bridged) fun id mentioned declared => ?_
  -- The parameters of the conversion function come after all variables that are declared.
  obtain ⟨entry, declarable⟩ := Validity.checkVariable_eq_ok_iff.mp
    ((Program.check_eq_ok_iff.mp step.run.orderly.valid).2 _ (Gathering.mem_declaredIn.mp declared))
  have old := (Array.getElem?_eq_some_iff.mp declarable.known).1
  exact absurd old (Nat.not_lt.mpr (step.run.bridge_mentions bridged mentioned))

end StepRun

/-! ## One category -/

/-- Threading lets the functions of a category stand for the old ones. -/
theorem CategoryRun.renamed {shader result : Shader} {category : Category}
    {supplied : Option VariableId} (run : CategoryRun shader category supplied result) :
    List.Forall₂ (Global.Renames run.replace) run.gathered.program.globals
      result.program.globals :=
  run.substituted.imp fun before after substituted => by
    cases substituted with
    | struct type => exact .struct type
    | var id => exact .var id
    | prototype function => exact .prototype function
    | helper body => exact .definition _ body _
    | independent body free =>
      have renames := @Global.Renames.definition run.replace run.main body body
      rwa [run.replace_eq_self free] at renames
    | @entry body => exact .definition _ body _

/-- What lowering puts in: the structs of the categories, as far as they are new, and the functions
that convert between them. -/
def Shader.Inserted (shader : Shader) (structs : CategoryStructs) (result : Shader) :
    Global → Prop
  | .struct type => shader.program.tables.types.size ≤ type.index ∧
      ∃ entry ∈ structs, entry.2.internal = some type ∨ entry.2.external = some type
  | .definition function _ => shader.program.tables.functions.size ≤ function.index ∧
      ∃ entry ∈ structs, ∃ rules first, entry.1.layoutRules = some rules ∧
        result.program.tables.functions[function.index]? = some
          (Layout.convertFunction rules.conversion (entry.1.structName .external) first)
  | .var _ | .prototype _ => False

/-- What is inserted and keeps its function in all later categories. -/
def Shader.Lasting (shader : Shader) (structs : CategoryStructs) (result : Shader)
    (global : Global) : Prop :=
  shader.Inserted structs result global ∧
    ∀ function, global.function? = some function → result.program.Inert function

/-- No global variable is inserted. -/
theorem Shader.Inserted.not_var {shader result : Shader} {structs : CategoryStructs}
    (id : VariableId) : ¬ shader.Inserted structs result (.var id) := fun impossible => impossible

/-- Only the function of a declaration counts, not its body. -/
theorem Shader.Lasting.renames {shader result : Shader} {structs : CategoryStructs}
    {global changed : Global} (lasting : shader.Lasting structs result global)
    (renames : global.Renames id changed) : shader.Lasting structs result changed := by
  cases renames with
  | struct | var | prototype | definition => exact lasting

namespace StepRun

variable {shader result : Shader} {category : Category} {supplied : Option VariableId}
  (step : StepRun shader category supplied result)

/-- The declarations that gathering adds last. -/
theorem news_lasting {global changed : Global} (new : global ∈ step.run.gather.news)
    (renames : global.Renames step.run.replace changed) :
    shader.Lasting [(category, step.gathering.structs)] result changed := by
  obtain ⟨internal, grows, -⟩ :=
    step.run.gather.internal step.run.orderly.sound step.run.orderly.closed
  rw [GatherRun.news, List.mem_append] at new
  rcases new with declared | bridge
  · obtain ⟨rfl, isNew⟩ := internal.declared_new global declared
    cases renames
    exact ⟨⟨isNew, _, List.mem_singleton_self _, .inl rfl⟩, by simp [Global.function?]⟩
  · cases bridged : step.run.gather.bridge with
    | none => simp [bridged] at bridge
    | some made =>
      rcases step.run.gather.bridged with ⟨none, -⟩ | ⟨rules, other, _, _, _, hasRules, some, -, -,
        bridges, -⟩
      · simp [none] at bridged
      obtain rfl : other = made := by simpa [bridged] using some.symm
      rw [bridged, Option.map_some, Option.getD_some, Bridge.globals, List.mem_pair] at bridge
      rcases bridge with rfl | rfl
      · cases renames
        refine ⟨⟨Nat.le_trans grows.size_types bridges.new, _, List.mem_singleton_self _, .inr ?_⟩,
          by simp [Global.function?]⟩
        have outer := step.run.gather.outer
        rw [bridged] at outer
        simp [StepRun.gathering, Gathering.structs, Gathering.external, outer]
      · obtain ⟨isNew, -⟩ := step.run.gather.bridge_function grows.sameFunctions bridged
        cases renames
        rw [step.run.replace_eq_self (step.run.bridge_free bridged)]
        refine ⟨⟨Nat.le_of_eq isNew.symm, _, List.mem_singleton_self _, rules,
          step.run.gather.middle.vars.size, hasRules, step.gathered_evolves.functions ?_⟩,
          fun function same => ?_⟩
        · rw [bridges.functions, bridges.function]
          exact Array.getElem?_push_size
        · obtain rfl : other.function = function := Option.some.inj same
          exact step.bridge_inert bridged

/-- The declarations before and after one category. -/
theorem aligned : Aligned (shader.Lasting [(category, step.gathering.structs)] result)
    (· ∉ result.program.globalVariables) step.run.replace shader.program.globals
    result.program.globals := by
  have left {id : VariableId} (declared : id ∈ result.program.globalVariables) :
      id ∈ shader.program.globalVariables ∧ id ∉ step.run.gathering.members :=
    step.run.mem_globalVariables.mp (step.pruned.mem_globalVariables.mp declared).1
  have taken := @Aligned.filter (fun _ => False) (· ∉ result.program.globalVariables)
    (Gathering.stays (category.claims shader.program.tables supplied)) shader.program.globals
    fun global member gone => by
      cases global with
      | var id =>
        refine ⟨id, rfl, fun declared => (left declared).2 ?_⟩
        rw [step.run.gather.members, List.mem_filter]
        exact ⟨Gathering.mem_declaredIn.mpr member, by simpa [Gathering.stays] using gone⟩
      | struct | prototype | definition => simp [Gathering.stays] at gone
  have gathered : Aligned (· ∈ step.run.gather.news) (· ∉ result.program.globalVariables) id
      shader.program.globals step.run.gathered.program.globals := by
    rw [step.run.gather.globals]
    exact taken.trans (Aligned.insertAt (fun _ member => member) _ step.run.gather.place)
      (fun _ => id) (fun _ _ impossible => impossible.elim) (fun _ member => member)
      (fun _ gone => gone) (fun _ gone => gone)
  obtain ⟨trimmed, each, globals⟩ := step.pruned.globals
  have trims : List.Forall₂ (Global.Renames id) step.threaded.program.globals trimmed :=
    each.imp fun _ _ => Prune.Trimmed.renames
  have pruned : Aligned (fun _ => False) (· ∉ result.program.globalVariables) id trimmed
      result.program.globals := by
    rw [globals]
    refine Aligned.filter trimmed fun global member gone => ?_
    cases global with
    | var id =>
      refine ⟨id, rfl, fun declared => ?_⟩
      have marked := (step.pruned.mem_globalVariables.mp declared).2
      simp [Prune.keeps, marked] at gone
    | struct | prototype | definition => simp [Prune.keeps] at gone
  have changed : Aligned (shader.Lasting [(category, step.gathering.structs)] result)
      (· ∉ result.program.globalVariables) step.run.replace shader.program.globals
      step.threaded.program.globals :=
    gathered.trans (@Aligned.of_forall₂ (fun _ => False) (fun _ => False) _ _ _ step.run.renamed)
      step.run.gather.var_not_new (fun _ _ new renames => step.news_lasting new renames)
      (fun _ impossible => impossible.elim) (fun _ gone => gone) fun _ impossible => impossible.elim
  have kept := (@Aligned.of_forall₂ (fun _ => False) (fun _ => False) _ _ _ trims).trans pruned
    (fun _ impossible => impossible) (fun _ _ impossible _ => impossible)
    (fun _ impossible => impossible) (fun _ impossible => impossible.elim) fun _ gone => gone
  exact changed.trans kept (fun id lasting => Shader.Inserted.not_var id lasting.1)
    (fun _ _ lasting renames => lasting.renames renames) (fun _ impossible => impossible.elim)
    (fun _ gone => gone) fun _ gone => gone

end StepRun

end ShaderPipeline
