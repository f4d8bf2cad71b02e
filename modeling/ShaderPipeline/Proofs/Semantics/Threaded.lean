import ShaderPipeline.Proofs.Frames
import ShaderPipeline.Proofs.Semantics.Agreement

/-!
# Runs of a threaded program

The gathered variables of a program live in one instance of their struct, a
variable in the frame of the entry point. The stores correspond if the instance
holds what the gathered variables hold and all other variables hold the same.
Every helper works with a reference to that instance, so calls of helpers do the
same, and so does the old body of the entry point once the instance is filled.
-/

namespace ShaderPipeline

/-- A grounded program without addresses and references. -/
structure Program.Runnable (program : Program) (sizes : Nat → Prop) : Prop
    extends program.Grounded sizes where
  plain : program.Plain
  direct : ∀ entry ∈ program.tables.vars, entry.reference = none

/-- A runnable program has no references. -/
theorem Program.Runnable.isReference {program : Program} {sizes : Nat → Prop}
    (runnable : program.Runnable sizes) (id : VariableId) :
    program.tables.isReference id = false := by
  unfold Tables.isReference
  cases known : program.tables.vars[id.index]? with
  | none => rfl
  | some entry => simp [runnable.direct entry (Array.mem_of_getElem? known)]

namespace Tables

variable {before after : Tables} {id : VariableId}

/-- A variable stays a reference, or none, while the tables grow. -/
theorem Extends.isReference (extended : before.Extends after)
    (known : id.index < before.vars.size) : after.isReference id = before.isReference id := by
  have there := Array.getElem?_eq_getElem known
  simp [Tables.isReference, there, extended.vars there]

/-- A variable stays global, or local, while the tables grow. -/
theorem Extends.isGlobal (extended : before.Extends after) (known : id.index < before.vars.size) :
    after.isGlobal id = before.isGlobal id := by
  have there := Array.getElem?_eq_getElem known
  simp [Tables.isGlobal, there, extended.vars there]

/-- A variable of another scope is not global. -/
theorem isGlobal_of_scope {tables : Tables} {entry : Variable}
    (known : tables.vars[id.index]? = some entry) (notGlobal : entry.scope ≠ .global) :
    tables.isGlobal id = false := by
  simp [Tables.isGlobal, known, notGlobal]

/-- The initial value of a variable stays the same while the tables grow. -/
theorem Extends.initial (extended : before.Extends after) (acyclic : before.Acyclic)
    (closed : before.Closed) (known : id.index < before.vars.size) :
    after.initial id = before.initial id := by
  have there := Array.getElem?_eq_getElem known
  simp only [Tables.initial, there, extended.vars there]
  exact Acyclic.zero_extends acyclic extended (closed.vars there)

end Tables

namespace Coupling

variable {members : List VariableId} {old : VariableId → Prop} {home : Option VariableId}

/-- The instance in the frame of the entry point holds what the gathered variables hold, and all
other variables hold the same. -/
structure Holds (members : List VariableId) (old : VariableId → Prop) (home : Option VariableId)
    (store other : Store) : Prop where
  globals : ∀ id, old id → id ∉ members → other (.global id) = store (.global id)
  frames : ∀ depth id, old id → other (.frame depth id) = store (.frame depth id)
  held : ∀ holder, home = some holder →
    other (.frame 0 holder) = .aggregate (members.map fun id => store (.global id))

/-- A gathered variable is a part of the instance, and every other one stays where it is. -/
inductive Moves (members : List VariableId) (old : VariableId → Prop) (home : Option VariableId) :
    Place → Place → Prop where
  | global {id : VariableId} (path : List Nat) (known : old id) (free : id ∉ members) :
      Moves members old home ⟨.global id, path⟩ ⟨.global id, path⟩
  | frame {id : VariableId} (depth : Nat) (path : List Nat) (known : old id) :
      Moves members old home ⟨.frame depth id, path⟩ ⟨.frame depth id, path⟩
  | member {id holder : VariableId} (path : List Nat) (gathered : id ∈ members)
      (isHome : home = some holder) :
      Moves members old home ⟨.global id, path⟩ ⟨.frame 0 holder, members.idxOf id :: path⟩

/-- Changing what one gathered variable holds changes its part of the instance. -/
theorem map_write (once : members.Nodup) {id : VariableId} (gathered : id ∈ members)
    (store : Store) (path : List Nat) (value : Value) :
    members.map (fun other => store.write ⟨.global id, path⟩ value (.global other)) =
      (members.map fun other => store (.global other)).set (members.idxOf id)
        ((store (.global id)).write path value) := by
  apply List.ext_getElem?
  intro position
  rw [List.getElem?_map, List.getElem?_set, List.length_map, List.getElem?_map]
  by_cases here : members.idxOf id = position
  · subst here
    simp [List.idxOf_lt_length_of_mem gathered, Store.write]
  · rw [if_neg here]
    cases there : members[position]? with
    | none => rfl
    | some other =>
      have apart : other ≠ id := by
        rintro rfl
        obtain ⟨inside, isThere⟩ := List.getElem?_eq_some_iff.mp there
        exact here (isThere ▸ once.idxOf_getElem position inside)
      simp [Store.write, apart]

/-- How the stores and the places of a program and of the threaded one correspond. -/
def threading (members : List VariableId) (old : VariableId → Prop) (home : Option VariableId)
    (once : members.Nodup) (fresh : ∀ holder, home = some holder → ¬ old holder) : Coupling where
  lags := False
  leads := False
  stores := Holds members old home
  places := Moves members old home
  part moves position := by
    cases moves with
    | global path known free => exact .global _ known free
    | frame depth path known => exact .frame depth _ known
    | member path gathered isHome => exact .member _ gathered isHome
  read moves holds := by
    cases moves with
    | global path known free => rw [Store.read, Store.read, holds.globals _ known free]
    | frame depth path known => rw [Store.read, Store.read, holds.frames _ _ known]
    | @member id holder path gathered isHome =>
      simp only [Store.read, holds.held holder isHome, Value.read_cons, Value.part_aggregate,
        List.getElem?_map, List.getElem?_idxOf gathered, Option.map_some, Option.getD_some]
  write value moves holds := by
    cases moves with
    | @global id path isOld free =>
      refine ⟨fun other known outside => ?_, fun depth other known => ?_, fun holder isHome => ?_⟩
      · simp only [Store.write, holds.globals other known outside]
      · simp only [Store.write, reduceCtorEq, if_false, holds.frames depth other known]
      · simp only [Store.write, reduceCtorEq, if_false, holds.held holder isHome]
        refine congrArg _ (List.map_congr_left fun other gathered => ?_)
        have apart : other ≠ id := by
          rintro rfl
          exact free gathered
        simp [apart]
    | @frame id level path isOld =>
      refine ⟨fun other known outside => ?_, fun depth other known => ?_, fun holder isHome => ?_⟩
      · simp only [Store.write, reduceCtorEq, if_false, holds.globals other known outside]
      · simp only [Store.write, holds.frames depth other known]
      · have apart : Root.frame 0 holder ≠ .frame level id := by
          rintro ⟨⟩
          exact fresh _ isHome isOld
        simp only [Store.write, apart, reduceCtorEq, if_false, holds.held holder isHome]
    | @member id holder path gathered isHome =>
      refine ⟨fun other known outside => ?_, fun depth other known => ?_, fun also isAlso => ?_⟩
      · have apart : other ≠ id := by
          rintro rfl
          exact outside gathered
        simp [Store.write, apart, holds.globals other known outside]
      · have apart : Root.frame depth other ≠ .frame 0 holder := by
          rintro ⟨⟩
          exact fresh _ isHome known
        simp only [Store.write, apart, reduceCtorEq, if_false, holds.frames depth other known]
      · obtain rfl : holder = also := Option.some.inj (isHome.symm.trans isAlso)
        rw [map_write once gathered]
        simp only [Store.write, if_true, holds.held holder isHome, Value.write_cons,
          Value.part_aggregate, Value.setPart_aggregate, List.getElem?_map,
          List.getElem?_idxOf gathered, Option.map_some, Option.getD_some]

end Coupling

/-- The instance of a dependent function is a new variable of a function. -/
theorem ThreadRun.inst_new {shader result : Shader} {plan : Plan} {main function : FunctionId}
    (run : ThreadRun shader plan main result) (dependent : function ∈ plan.dependents) :
    ∃ entry, shader.program.tables.vars.size ≤ (run.inst function).index ∧
      result.program.tables.vars[(run.inst function).index]? = some entry ∧
      entry.scope ≠ .global := by
  have since : shader.program.tables.vars.size ≤ run.base.vars.size := run.ready.adds.size_vars
  obtain ⟨signature, -, -, isMain, -, made⟩ := run.made dependent
  by_cases helps : function = main
  · subst helps
    by_cases isLocal : plan.hasLocal = true
    · obtain ⟨new, there⟩ := run.ready.internal _ (run.inst_local dependent isLocal)
      exact ⟨_, new, run.tables ▸ run.coherent.adds.vars there, by simp [Plan.localEntry]⟩
    · have noLocal : plan.hasLocal = false := by simpa using isLocal
      obtain ⟨holder, new, -, there, copied⟩ := made.handed (isMain.mpr rfl) noLocal
      obtain rfl := run.prepend_inst dependent copied (by simp [noLocal])
      exact ⟨_, Nat.le_trans since new, run.tables ▸ there, by simp [Plan.structEntry]⟩
  · have notMain : signature.isMain = false := by simpa using mt isMain.mp helps
    obtain ⟨holder, new, -, there, copied⟩ := made.helper notMain
    obtain rfl := run.prepend_inst dependent copied (by simp [notMain])
    exact ⟨_, Nat.le_trans since new, run.tables ▸ there, by simp [Plan.helperEntry]⟩

namespace CategoryRun

open Coupling

variable {shader threaded : Shader} {category : Category} {sizes : Nat → Prop}
  (run : CategoryRun shader category none threaded)

/-! ## The instance -/

/-- The instance of a dependent function is a new variable, and no global one. -/
theorem inst_new {function : FunctionId} (dependent : function ∈ run.dependents) :
    shader.program.tables.vars.size ≤ (run.inst function).index ∧
      threaded.program.tables.isGlobal (run.inst function) = false := by
  obtain ⟨entry, new, known, notGlobal⟩ := run.thread.inst_new dependent
  exact ⟨Nat.le_trans run.gathered_extends.size_vars new, Tables.isGlobal_of_scope known notGlobal⟩

/-- The variable of the entry point that holds the instance. An entry point that does not depend on
the category has none. -/
def home : Option VariableId :=
  if run.main ∈ run.dependents then some (run.inst run.main) else none

/-- The instance of the entry point is a new variable. -/
theorem home_new (holder : VariableId) (isHome : run.home = some holder) : ¬ Old shader holder := by
  unfold home at isHome
  split at isHome
  case isTrue dependent =>
    obtain rfl := Option.some.inj isHome
    exact Nat.not_lt.mpr (run.inst_new dependent).1
  case isFalse => simp at isHome

/-- No variable is gathered twice. -/
theorem members_once (run : CategoryRun shader category none threaded) :
    run.gathering.members.Nodup := by
  rw [run.gather.members]
  exact run.orderly.onceVariables.filter _

/-- How the stores before and after the run correspond. -/
def coupling : Coupling :=
  .threading run.gathering.members (Old shader) run.home run.members_once run.home_new

/-- The place of the instance. -/
def homePlace : Place := ⟨.frame 0 (run.inst run.main), []⟩

/-- Which calls of helpers correspond. A dependent helper is handed the place of the instance. -/
inductive Links : FunctionId → FunctionId → List Passed → Prop where
  | free {function : FunctionId} (helps : function ≠ run.main)
      (known : function.index < shader.program.tables.functions.size)
      (outside : function ∉ run.dependents) : Links function function []
  | dependent {function : FunctionId} (helps : function ≠ run.main)
      (inside : function ∈ run.dependents) (entered : run.main ∈ run.dependents) (value : Value) :
      Links function (run.replace function) [⟨some run.homePlace, value⟩]

/-! ## Bodies -/

section Settings

variable {run}
variable {function : FunctionId}
  {interp : Interpretation} {fuel depth : Nat} {pairs others extra : List (Param × Passed)}
  {invoke invokes : FunctionId → List Passed → Run Value}
  (same : run.coupling.Pairs pairs others)
  (own : ∀ pair ∈ pairs, Old shader pair.1.variableId)
  (fresh : ∀ pair ∈ extra, ¬ Old shader pair.1.variableId)

include same own fresh

/-- Variables that are not gathered stay where they are. -/
theorem moves_locate {id : VariableId} (isOld : Old shader id)
    (free : shader.program.tables.isGlobal id = true → id ∉ run.gathering.members) :
    run.coupling.places (shader.program.tables.locate depth pairs id)
      (threaded.program.tables.locate depth (extra ++ others) id) :=
  places_locate same (fun pair member => run.extended.isReference (own pair member))
    (fun pair member isId => fresh pair member (isId ▸ isOld)) (run.extended.isGlobal isOld)
    (fun isGlobal => .global [] isOld (free isGlobal)) fun _ => .frame depth [] isOld

/-- The variables and the calls of a body correspond, if its instance is the one of the entry
point. -/
theorem settings (runnable : shader.program.Runnable sizes)
    (finds : function ∈ run.dependents → run.main ∈ run.dependents ∧
      threaded.program.tables.locate depth (extra ++ others) (run.inst function) = run.homePlace)
    (calls : run.coupling.Invokes run.Links invoke invokes) :
    run.coupling.Settings (shader.program.tables.frame interp fuel depth pairs invoke)
      (threaded.program.tables.frame interp fuel depth (extra ++ others) invokes)
      (run.change function) (run.Mentions function) (run.Calls function) where
  interp := rfl
  least := Nat.le_refl _
  most := .inr rfl
  symbol id named := by
    obtain ⟨isOld, keeps⟩ := named
    by_cases gathered : id ∈ run.gathering.members
    · obtain ⟨entered, found⟩ := finds (keeps gathered)
      have moved : (run.change function).symbol id =
          .field (.var (run.inst function)) (run.gathering.members.idxOf id) := by
        simp [change, Gathering.threading, gathered, run.gather.sameSupplied]
      have isHere : shader.program.tables.locate depth pairs id = ⟨.global id, []⟩ := by
        obtain ⟨entry, declarable⟩ := run.member_declarable gathered
        have isGlobal : shader.program.tables.isGlobal id = true := by
          simp [Tables.isGlobal, declarable.known, declarable.scope]
        have noAlias (pair : Option (Param × Passed)) :
            pair.bind shader.program.tables.aliased = none := by
          cases pair <;> simp [Tables.aliased, runnable.isReference]
        simp [Tables.locate, noAlias, isGlobal]
      rw [moved]
      refine simulates_pure fun _ _ _ => ?_
      simp only [Tables.frame, isHere, found]
      exact .place (.member [] gathered (if_pos entered))
    · have unchanged : (run.change function).symbol id = .var id := by
        simp [change, Gathering.threading, gathered]
      rw [unchanged]
      exact simulates_pure fun _ _ _ =>
        .place (moves_locate same own fresh isOld fun _ => gathered)
  call callee args changedArgs called evals := by
    obtain ⟨helps, known, keeps⟩ := called
    by_cases dependent : callee ∈ run.dependents
    · obtain ⟨entered, found⟩ := finds (keeps dependent)
      have moved : (run.change function).call callee changedArgs =
          .call (run.replace callee) (.var (run.inst function) :: changedArgs) := by
        simp [change, Gathering.threading, dependent]
      rw [moved]
      intro store other kept
      simp only [Setting.eval, Setting.evalAll, Run.pure_bind, Run.bind_assoc]
      -- The instance is evaluated first, and only its place counts.
      rw [Run.bind_of_some (Run.load_apply _ other)]
      refine Simulates.andThen evals (fun passed changedPassed passes => ?_) store other kept
      simp only [Tables.frame, found, Operand.place?]
      refine (calls (.dependent helps dependent entered _) passes).thenSame
        fun value => ?_
      exact simulates_value
    · have unchanged : (run.change function).call callee changedArgs =
          .call callee changedArgs := by
        simp [change, Gathering.threading, dependent]
      rw [unchanged]
      simp only [Setting.eval]
      refine evals.andThen fun passed moved passes => ?_
      refine (calls (.free helps known dependent) passes).thenSame fun value => ?_
      exact simulates_value

/-- The substituted body of a function does the same as the body. -/
theorem execAll_subst (runnable : shader.program.Runnable sizes) {body : Block}
    (defined : (function, body) ∈ shader.program.definitions)
    (finds : function ∈ run.dependents → run.main ∈ run.dependents ∧
      threaded.program.tables.locate depth (extra ++ others) (run.inst function) = run.homePlace)
    (calls : run.coupling.Invokes run.Links invoke invokes) :
    run.coupling.Simulates (Flows (Always Eq))
      ((shader.program.tables.frame interp fuel depth pairs invoke).execAll body)
      ((threaded.program.tables.frame interp fuel depth (extra ++ others) invokes).execAll
        (Block.subst body (run.change function))) := by
  refine (settings same own fresh runnable finds calls).execAll
    (run.body_uses defined (runnable.plain _ defined)) fun id initial declares => ?_
  obtain ⟨-, locals⟩ := Validity.checkDefinition_checked (run.orderly.check_definition defined)
  obtain ⟨entry, declarable⟩ := locals _ declares id rfl
  have isOld : Old shader id := (Array.getElem?_eq_some_iff.mp declarable.known).1
  have isLocal := Tables.isGlobal_of_scope declarable.known (by simp [declarable.scope])
  exact ⟨run.extended.initial runnable.acyclic runnable.closed isOld,
    moves_locate same own fresh isOld fun isGlobal => by simp [isLocal] at isGlobal⟩

end Settings

/-! ## Helpers -/

/-- The definition of a helper after the run. -/
theorem helper_defined {function : FunctionId} {body : Block}
    (helps : function ≠ run.main) (defined : (function, body) ∈ shader.program.definitions) :
    (run.replace function, Block.subst body (run.change function)) ∈
      threaded.program.definitions := by
  obtain ⟨turned, there, turns⟩ :=
    Outcome.forall₂_exists_right run.turns (run.gathered_defined defined)
  cases turns with
  | free _ outside =>
    rwa [run.replace_eq_self outside, run.subst_free defined outside]
  | helper => exact there
  | handed | wrapped => exact absurd rfl helps

/-- A function without a body does not get one. -/
theorem still_undefined {function : FunctionId}
    (inside : function.index < shader.program.tables.functions.size)
    (outside : function ∉ run.dependents)
    (undefined : ∀ body, (function, body) ∉ shader.program.definitions) (body : Block) :
    (function, body) ∉ threaded.program.definitions := by
  intro defined
  obtain ⟨source, gathered, turns⟩ := Outcome.forall₂_exists_left run.turns defined
  have same : function = run.replace source.1 := turns.fst
  have grown : shader.program.tables.functions.size ≤
      run.gathered.program.tables.functions.size := run.gathered_extends.size_functions
  by_cases dependent : source.1 ∈ run.dependents
  · exact run.replace_ne dependent outside (Nat.lt_of_lt_of_le inside grown) same.symm
  · rw [run.replace_eq_self dependent] at same
    rcases run.gathered_cases gathered with old | ⟨bridge, bridged, rfl⟩
    · exact undefined source.2 (same ▸ old)
    · obtain ⟨-, grows, -⟩ := run.gather.internal run.orderly.sound run.orderly.closed
      have new := (run.gather.bridge_function grows.sameFunctions bridged).1
      rw [same] at inside
      exact absurd new (Nat.ne_of_lt inside)

/-- A helper that does not depend on the category stays as it is. -/
theorem twins_free (runnable : shader.program.Runnable sizes) {function : FunctionId}
    (helps : function ≠ run.main)
    (inside : function.index < shader.program.tables.functions.size)
    (outside : function ∉ run.dependents) :
    run.coupling.Twins shader.program threaded.program run.Links 1 function function [] := by
  have known := Array.getElem?_eq_getElem inside
  by_cases undefined : ∀ body, (function, body) ∉ shader.program.definitions
  · exact .missing (Program.body?_eq_none undefined)
      (Program.body?_eq_none (run.still_undefined inside outside undefined))
  · obtain ⟨body, defined⟩ := not_forall_not.mp undefined
    have turned := run.helper_defined helps defined
    rw [run.replace_eq_self outside] at turned
    refine .defined known (Program.body?_of_mem run.orderly.onceDefinitions defined)
      (run.extended.functions known) (Program.body?_of_mem run.result_once turned)
      (List.nil_append _).symm rfl (by simp)
      (fun param own => run.extended.isReference (runnable.params known param own))
      (fun param own depth _ => .frame depth [] (runnable.params known param own)) ?_
    intro interp fuel more depth pairs others invoke invokes _ most _ same own calls
    obtain rfl : more = fuel := most.resolve_left id
    exact execAll_subst same (fun pair member => runnable.params known _ (own pair member))
      (by simp) runnable defined (fun dependent => absurd dependent outside) calls

/-- A dependent helper works with the instance of the entry point. -/
theorem twins_dependent (runnable : shader.program.Runnable sizes) {function : FunctionId}
    (helps : function ≠ run.main) (dependent : function ∈ run.dependents)
    (entered : run.main ∈ run.dependents) (value : Value) :
    run.coupling.Twins shader.program threaded.program run.Links 1 function (run.replace function)
      [⟨some run.homePlace, value⟩] := by
  obtain ⟨body, defined⟩ := run.dependent_defined dependent
  obtain ⟨signature, known, -⟩ := run.enters.isMain _ defined
  have turned := run.helper_defined helps defined
  have isReference : threaded.program.tables.isReference (run.inst function) = true := by
    simp only [Tables.isReference, inst, run.thread.helper_entry dependent helps]
    rfl
  have stands : threaded.program.tables.aliased
      (⟨run.inst function, .input⟩, ⟨some run.homePlace, value⟩) = some run.homePlace := by
    simp [Tables.aliased, isReference]
  refine .defined known (Program.body?_of_mem run.orderly.onceDefinitions defined)
    (run.helper_params dependent helps known) (Program.body?_of_mem run.result_once turned)
    (show _ = [⟨run.inst function, .input⟩] ++ signature.params from rfl) rfl (by simp [stands])
    (fun param own => run.extended.isReference (runnable.params known param own))
    (fun param own depth _ => .frame depth [] (runnable.params known param own)) ?_
  intro interp fuel more depth pairs others invoke invokes _ most _ same own calls
  obtain rfl : more = fuel := most.resolve_left id
  refine execAll_subst same (fun pair member => runnable.params known _ (own pair member))
    ?_ runnable defined (fun _ => ⟨entered, ?_⟩) calls
  · simpa [Old] using (run.inst_new dependent).1
  · simp [Tables.locate, stands]

/-- A new frame is the same, as long as it does not replace the instance. -/
theorem holds_clear (runnable : shader.program.Runnable sizes) {home : Option VariableId}
    {depth : Nat} (apart : home = none ∨ 0 < depth) {store other : Store}
    (holds : Holds run.gathering.members (Old shader) home store other) :
    Holds run.gathering.members (Old shader) home (shader.program.tables.clear depth store)
      (threaded.program.tables.clear depth other) := by
  refine ⟨holds.globals, fun level id isOld => ?_, fun holder isHome => ?_⟩
  · simp only [Tables.clear, holds.frames level id isOld,
      run.extended.initial runnable.acyclic runnable.closed isOld]
  · have above : 0 ≠ depth := Nat.ne_of_lt (apart.resolve_left (by simp [isHome]))
    simpa only [Tables.clear, above, if_false] using holds.held holder isHome

/-- Calls of helpers do the same. -/
theorem programs (runnable : shader.program.Runnable sizes) :
    run.coupling.Programs shader.program threaded.program run.Links 1 where
  clear deep _ _ holds := run.holds_clear runnable (.inr deep) holds
  twins linked := by
    cases linked with
    | free helps known outside => exact run.twins_free runnable helps known outside
    | dependent helps inside entered value =>
      exact run.twins_dependent runnable helps inside entered value

end CategoryRun

end ShaderPipeline
