import ShaderPipeline.Proofs.Semantics.Calls
import ShaderPipeline.Proofs.Validity.Pruned

/-!
# Stores that agree

Two runs whose stores agree wherever it matters go the same way. With all of the
store this says that more fuel changes no outcome; with all but the variables that
nothing refers to, it says that pruning changes none.
-/

namespace ShaderPipeline

/-! ## Bodies and the entry point -/

namespace Program

variable {program : Program}

/-- A function that is defined once has the body of its definition. -/
theorem body?_of_mem (once : (program.definitions.map Prod.fst).Nodup) {function : FunctionId}
    {body : Block} (defined : (function, body) ∈ program.definitions) :
    program.body? function = some body := by
  unfold body?
  cases found : program.definitions.find? fun entry => entry.1 == function with
  | none => simpa using List.find?_eq_none.mp found _ defined
  | some entry =>
    have same : entry.1 = function := by simpa using List.find?_some found
    rw [List.inj_on_of_nodup_map once (List.mem_of_find?_eq_some found) defined same]
    rfl

/-- A function without a definition has no body. -/
theorem body?_eq_none {function : FunctionId}
    (undefined : ∀ body, (function, body) ∉ program.definitions) : program.body? function = none := by
  unfold body?
  rw [Option.map_eq_none_iff, List.find?_eq_none]
  rintro ⟨other, body⟩ defined same
  obtain rfl : other = function := by simpa using same
  exact undefined body defined

/-- The only entry point is the one that is entered. -/
theorem Enters.main? {main : FunctionId} (enters : program.Enters main) :
    ∃ place, program.main? = .ok (some (place, main)) := by
  obtain ⟨body, defined⟩ := enters.defined
  obtain ⟨entry, known, isMain⟩ := enters.isMain _ defined
  obtain ⟨found, foundOk, isSome⟩ := @findMain_ok program.tables program.globals fun member => by
    obtain ⟨entry, known, -⟩ := enters.isMain _ (mem_definitions.mpr member)
    exact ⟨entry, known⟩
  obtain ⟨⟨place, other⟩, rfl⟩ := Option.isSome_iff_exists.mp (isSome ⟨main, body, entry,
    mem_definitions.mp defined, known, isMain.mpr rfl⟩)
  obtain ⟨-, ⟨otherBody, there⟩, otherEntry, otherKnown, otherMain⟩ := findMain_inv foundOk
  obtain ⟨same, sameKnown, isOther⟩ := enters.isMain _
    (mem_definitions.mpr (List.mem_of_getElem? there))
  obtain rfl : otherEntry = same := by simpa [otherKnown] using sameKnown
  exact ⟨place, isOther.mp otherMain ▸ foundOk⟩

/-- Running a program is calling its entry point. -/
theorem Enters.enterMain_eq {main : FunctionId} (enters : program.Enters main)
    (interp : Interpretation) (fuel : Nat) (args : List Value) :
    program.enterMain interp fuel args =
      program.call interp fuel 0 main (Passed.values args) := by
  obtain ⟨place, isMain⟩ := enters.main?
  simp only [enterMain, isMain]

/-- Programs whose entry points go the same way with any fuel have the same ends, as far as their
stores say the same about the watched variables. -/
theorem endsFrom_iff {coupling : Coupling} {result : Program} {interp : Interpretation}
    {store other : Store} {args others : List Value} {watched : VariableId → Prop}
    (exact : ¬ coupling.lags ∧ ¬ coupling.leads)
    (watches : ∀ {store other : Store}, coupling.stores store other → ∀ id, watched id →
      other (.global id) = store (.global id))
    (runs : ∀ fuel, coupling.Matches (Coupling.Always Eq)
      (program.enterMain interp fuel args store) (result.enterMain interp fuel others other))
    (outcome : Option Value) (values : VariableId → Value) :
    program.EndsFrom interp store args watched outcome values ↔
      result.EndsFrom interp other others watched outcome values := by
  constructor
  · rintro ⟨fuel, final, ends, holds⟩
    have matched := runs fuel
    rw [ends] at matched
    refine ⟨fuel, ?_⟩
    generalize result.enterMain interp fuel others other = ended at matched ⊢
    cases matched with
    | lead leads => exact absurd leads exact.2
    | aborted kept => exact ⟨_, rfl, fun id seen => (watches kept id seen).trans (holds id seen)⟩
    | done kept same =>
      exact ⟨_, by rw [show _ = _ from same],
        fun id seen => (watches kept id seen).trans (holds id seen)⟩
  · rintro ⟨fuel, final, ends, holds⟩
    have matched := runs fuel
    rw [ends] at matched
    refine ⟨fuel, ?_⟩
    generalize program.enterMain interp fuel args store = ended at matched ⊢
    cases matched with
    | lag lags => exact absurd lags exact.1
    | aborted kept => exact ⟨_, rfl, fun id seen => (watches kept id seen).symm.trans (holds id seen)⟩
    | done kept same =>
      exact ⟨_, by rw [show _ = _ from same],
        fun id seen => (watches kept id seen).symm.trans (holds id seen)⟩

/-- Programs end alike if their runs match under an exact coupling and what is watched
corresponds. -/
theorem ends_iff {coupling : Coupling} {result : Program} {interp : Interpretation}
    {given : VariableId → Option Value} {args others : List Value} {watched : VariableId → Prop}
    (exact : ¬ coupling.lags ∧ ¬ coupling.leads)
    (watches : ∀ {store other : Store}, coupling.stores store other → ∀ id, watched id →
      other (.global id) = store (.global id))
    (runs : ∀ fuel, coupling.Matches (Coupling.Always Eq)
      (program.enterMain interp fuel args (program.tables.start given))
      (result.enterMain interp fuel others (result.tables.start given)))
    (outcome : Option Value) (values : VariableId → Value) :
    program.Ends interp given args watched outcome values ↔
      result.Ends interp given others watched outcome values :=
  endsFrom_iff exact watches runs outcome values

/-- No body takes an address. -/
def Plain (program : Program) : Prop :=
  ∀ definition ∈ program.definitions,
    Block.Every (Expr.Uses (fun _ => True) (fun _ => True) fun _ => False) definition.2

instance (program : Program) : Decidable program.Plain :=
  inferInstanceAs (Decidable (∀ definition ∈ program.definitions, Block.Every _ definition.2))

end Program

/-! ## Variables out of use -/

namespace Tables

variable {tables before after : Tables}

/-- The zero of a type depends on the types only. -/
theorem zeroWithin_congr (same : after.types = before.types) (depth : Nat) :
    after.zeroWithin depth = before.zeroWithin depth := by
  induction depth with
  | zero => rfl
  | succ depth inductionHypothesis =>
    funext id
    simp only [zeroWithin, same, inductionHypothesis]

@[simp] theorem retire_isReference (gone : VariableId → Bool) :
    (tables.retire gone).isReference = tables.isReference := by
  funext id
  cases known : tables.vars[id.index]? <;> simp [isReference, known]

@[simp] theorem retire_isGlobal (gone : VariableId → Bool) :
    (tables.retire gone).isGlobal = tables.isGlobal := by
  funext id
  cases known : tables.vars[id.index]? <;> simp [isGlobal, known]

@[simp] theorem retire_initial (gone : VariableId → Bool) :
    (tables.retire gone).initial = tables.initial := by
  funext id
  have same := @zeroWithin_congr tables (tables.retire gone) rfl
  cases known : tables.vars[id.index]? <;> simp [initial, known, zero, same]

@[simp] theorem retire_start (gone : VariableId → Bool) :
    (tables.retire gone).start = tables.start := by
  funext given root
  cases root with
  | global id => cases known : tables.vars[id.index]? <;> simp [start, known]
  | frame depth id => simp [start]

@[simp] theorem retire_clear (gone : VariableId → Bool) :
    (tables.retire gone).clear = tables.clear := by
  funext depth store root
  cases root <;> simp [clear]

end Tables

namespace Coupling

/-! ## Agreement -/

/-- The stores hold the same wherever it matters. -/
def agreeing (lags : Prop) (roots : Root → Prop) : Coupling where
  lags := lags
  leads := False
  stores store other := ∀ root, roots root → other root = store root
  places place moved := roots place.root ∧ moved = place
  part := fun ⟨matters, same⟩ _ => ⟨matters, by rw [same]⟩
  read := fun ⟨matters, same⟩ agree => by rw [same, Store.read, Store.read, agree _ matters]
  write := fun value ⟨_, same⟩ agree root matters => by
    rw [same, Store.write, Store.write, agree root matters]

variable {coupling : Coupling} {tables changed : Tables} {depth : Nat}
  {pairs others extra : List (Param × Passed)}

/-- Where a variable is found corresponds, if it does for its own frame and globally. -/
theorem places_locate (same : coupling.Pairs pairs others)
    (references : ∀ pair ∈ pairs,
      changed.isReference pair.1.variableId = tables.isReference pair.1.variableId)
    {id : VariableId} (fresh : ∀ pair ∈ extra, pair.1.variableId ≠ id)
    (sameScope : changed.isGlobal id = tables.isGlobal id)
    (isGlobal : tables.isGlobal id = true → coupling.places ⟨.global id, []⟩ ⟨.global id, []⟩)
    (isLocal : tables.isGlobal id = false →
      coupling.places ⟨.frame depth id, []⟩ ⟨.frame depth id, []⟩) :
    coupling.places (tables.locate depth pairs id) (changed.locate depth (extra ++ others) id) := by
  have stands : Option.Rel coupling.places
      ((pairs.find? fun pair => pair.1.variableId == id).bind tables.aliased)
      (((extra ++ others).find? fun pair => pair.1.variableId == id).bind changed.aliased) := by
    have skipped : extra.find? (fun pair => pair.1.variableId == id) = none := by
      simpa using fresh
    rw [List.find?_append, skipped, Option.none_or]
    induction same with
    | nil => exact .none
    | @cons pair other _ _ head _ inductionHypothesis =>
      rw [List.forall_mem_cons] at references
      rw [List.find?_cons, List.find?_cons, head.1]
      split
      · exact aliased_rel head references.1
      · exact inductionHypothesis references.2
  unfold Tables.locate
  generalize (pairs.find? fun pair => pair.1.variableId == id).bind tables.aliased = place at stands ⊢
  generalize ((extra ++ others).find? fun pair =>
    pair.1.variableId == id).bind changed.aliased = moved at stands ⊢
  cases stands with
  | some moves => exact moves
  | none =>
    simp only [sameScope]
    cases scope : tables.isGlobal id with
    | true => simpa using isGlobal scope
    | false => simpa using isLocal scope

/-- Values are the same arguments on both sides. -/
theorem passes_values (args : List Value) :
    List.Forall₂ coupling.Passes (Passed.values args) (Passed.values args) :=
  List.forall₂_same.mpr (List.forall_mem_map.mpr fun _ _ => ⟨.none, rfl⟩)

/-- Every function is linked with itself. -/
def Itself (function counterpart : FunctionId) (handed : List Passed) : Prop :=
  counterpart = function ∧ handed = []

/-- Where the stores agree, the same variables and the same calls correspond. -/
theorem settings_agreeing {lags : Prop} {roots : Root → Prop} {names : VariableId → Prop}
    {interp : Interpretation} {fuel more : Nat} {invoke invokes : FunctionId → List Passed → Run Value}
    (least : fuel ≤ more) (most : lags ∨ more = fuel)
    (same : (agreeing lags roots).Pairs pairs others)
    (references : changed.isReference = tables.isReference)
    (scopes : changed.isGlobal = tables.isGlobal)
    (globals : ∀ id, roots (.global id))
    (frames : ∀ id, names id → roots (.frame depth id))
    (calls : (agreeing lags roots).Invokes Itself invoke invokes) :
    (agreeing lags roots).Settings (tables.frame interp fuel depth pairs invoke)
      (changed.frame interp more depth others invokes) {} names fun _ => True where
  interp := rfl
  least := least
  most := most
  symbol id named := simulates_pure fun _ _ _ => .place (by
    simpa [Tables.frame] using @places_locate _ tables changed depth pairs others [] same
      (fun pair _ => congrFun references _) id (by simp) (congrFun scopes id)
      (fun _ => ⟨globals id, rfl⟩) fun _ => ⟨frames id named, rfl⟩)
  call callee args changedArgs _ evals := by
    simp only [Setting.eval]
    refine evals.andThen fun passed moved passes => ?_
    refine (calls ⟨rfl, rfl⟩ passes).thenSame fun value => ?_
    exact simulates_value

/-- Where the stores agree, writing the same keeps them so. -/
theorem agreeing_write {lags : Prop} {roots : Root → Prop} (place : Place) (value : Value) :
    (agreeing lags roots).Simulates (Always Eq) (Run.write place value) (Run.write place value) :=
  fun store other agree => .done (fun root matters => by
    simp only [Store.write, agree root matters]) rfl

/-- The same arguments are found in the same places. -/
theorem locate_agreeing {lags : Prop} {roots : Root → Prop}
    (same : (agreeing lags roots).Pairs pairs others)
    (references : changed.isReference = tables.isReference)
    (scopes : changed.isGlobal = tables.isGlobal) (id : VariableId) :
    changed.locate depth others id = tables.locate depth pairs id := by
  have everywhere : (agreeing lags fun _ => True).Pairs pairs others :=
    same.imp fun pair other ⟨sameParam, place, value⟩ => ⟨sameParam, by
      generalize pair.2.place = first at place ⊢
      generalize other.2.place = second at place ⊢
      cases place with
      | none => exact .none
      | some found => exact .some ⟨trivial, found.2⟩, value⟩
  exact (@places_locate _ tables changed depth pairs others [] everywhere
    (fun pair _ => congrFun references _) id (by simp) (congrFun scopes id)
    (fun _ => ⟨trivial, rfl⟩) fun _ => ⟨trivial, rfl⟩).2

end Coupling

/-! ## Fuel -/

namespace Program

open Coupling

variable {program result : Program}

/-- More fuel lets every call do at least the same. -/
theorem programs_self (plain : program.Plain)
    (known : ∀ definition ∈ program.definitions, ∃ entry,
      program.tables.functions[definition.1.index]? = some entry) :
    (agreeing True fun _ => True).Programs program program Itself 0 where
  clear _ _ _ agree root _ := by
    cases root with
    | global id => exact agree _ trivial
    | frame level id => simp only [Tables.clear, agree _ trivial]
  twins := by
    rintro _ function _ ⟨rfl, rfl⟩
    cases hasBody : program.body? function with
    | none => exact .missing hasBody hasBody
    | some body =>
      obtain ⟨definition, found, rfl⟩ := Option.map_eq_some_iff.mp hasBody
      have defined := List.mem_of_find?_eq_some found
      obtain rfl : definition.1 = function := by simpa using List.find?_some found
      obtain ⟨signature, isKnown⟩ := known definition defined
      refine .defined isKnown hasBody isKnown hasBody (List.nil_append _).symm rfl (by simp)
        (fun _ _ => rfl) (fun _ _ _ _ => ⟨trivial, rfl⟩) ?_
      intro interp fuel more depth pairs others invoke invokes least most _ same _ calls
      have settings : (agreeing True fun _ => True).Settings
          (program.tables.frame interp fuel depth pairs invoke)
          (program.tables.frame interp more depth others invokes) {} (fun _ => True) fun _ => True :=
        settings_agreeing least most same rfl rfl (fun _ => trivial) (fun _ _ => trivial) calls
      have runs := settings.execAll (plain definition defined) fun id _ _ =>
        ⟨rfl, trivial, locate_agreeing same rfl rfl id⟩
      rwa [Block.subst_default] at runs

/-- An entry point that ends does so in the same way with more fuel. -/
theorem enterMain_mono (plain : program.Plain) {main : FunctionId} (enters : program.Enters main)
    {interp : Interpretation} {args : List Value} {fuel more : Nat} (least : fuel ≤ more)
    {store final : Store} {outcome : Option Value}
    (ends : program.enterMain interp fuel args store = some (outcome, final)) :
    program.enterMain interp more args store = some (outcome, final) := by
  have programs := programs_self plain fun definition defined => by
    obtain ⟨entry, known, -⟩ := enters.isMain definition defined
    exact ⟨entry, known⟩
  rw [enters.enterMain_eq] at ends ⊢
  have matched := programs.call interp least (.inl trivial) (Nat.zero_le 0)
    (⟨rfl, rfl⟩ : Itself main main []) (passes_values args) store store fun _ _ => rfl
  rw [ends, List.nil_append] at matched
  generalize program.call interp more 0 main _ store = ended at matched ⊢
  cases matched with
  | lead leads => exact leads.elim
  | aborted agree => rw [funext fun root => agree root trivial]
  | done agree same => rw [funext fun root => agree root trivial, ← same]

end Program

end ShaderPipeline
