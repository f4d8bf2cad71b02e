import ShaderPipeline.Proofs.Semantics.Globals
import ShaderPipeline.Proofs.Semantics.Returned

/-!
# The interface of a shader

Lowering the inputs of a shader makes them the first argument of the entry point,
and lowering the outputs makes them its result, both in the external layout. For
every program whose entry point depends on the category, that is all that changes:
the entry point ends in the same way as before, and with the same values of all
other globals.
-/

namespace ShaderPipeline

/-- Two runs that ended did so in the same way. -/
theorem Coupling.Matches.ended {α β : Type} {coupling : Coupling}
    {post : α → β → Store → Store → Prop} {value : Option α} {result : Option β}
    {store other : Store}
    (matched : coupling.Matches post (some (value, store)) (some (result, other))) :
    coupling.stores store other ∧
      Option.Rel (fun value result => post value result store other) value result := by
  cases matched with
  | aborted kept => exact ⟨kept, .none⟩
  | done kept holds => exact ⟨kept, .some holds⟩

namespace Program

variable {program result : Program} {coupling : Coupling} {interp : Interpretation}
  {args others : List Value} {store start : Store}
  {post : Value → Value → Store → Store → Prop}

/-- Entry points that go the same way as long as there is some fuel have related ends. -/
theorem ends_related {main other : FunctionId} (plain : program.Plain) (enters : program.Enters main)
    (plainResult : result.Plain) (entersResult : result.Enters other)
    (exact : ¬ coupling.lags ∧ ¬ coupling.leads)
    (runs : ∀ fuel, coupling.Matches post (program.enterMain interp (fuel + 2) args store)
      (result.enterMain interp (fuel + 2) others start)) :
    (∀ {fuel : Nat} {ended : Option Value × Store},
      program.enterMain interp fuel args store = some ended → ∃ more reached,
        result.enterMain interp more others start = some reached ∧
          coupling.Matches post (some ended) (some reached)) ∧
    ∀ {fuel : Nat} {reached : Option Value × Store},
      result.enterMain interp fuel others start = some reached → ∃ more ended,
        program.enterMain interp more args store = some ended ∧
          coupling.Matches post (some ended) (some reached) := by
  constructor
  · rintro fuel ⟨outcome, final⟩ ends
    have matched := runs fuel
    rw [enterMain_mono plain enters (Nat.le_add_right fuel 2) ends] at matched
    cases reaches : result.enterMain interp (fuel + 2) others start with
    | none =>
      rw [reaches] at matched
      cases matched with
      | lead leads => exact absurd leads exact.2
    | some reached => exact ⟨_, reached, reaches, reaches ▸ matched⟩
  · rintro fuel ⟨outcome, final⟩ reaches
    have matched := runs fuel
    rw [enterMain_mono plainResult entersResult (Nat.le_add_right fuel 2) reaches] at matched
    cases ends : program.enterMain interp (fuel + 2) args store with
    | none =>
      rw [ends] at matched
      cases matched with
      | lag lags => exact absurd lags exact.1
    | some ended => exact ⟨_, ended, ends, ends ▸ matched⟩

end Program

namespace Shader

/-- What is given to the variables of a shader, with other values for those of a category. -/
def givenTo (shader : Shader) (category : Category) (values given : VariableId → Option Value) :
    VariableId → Option Value := fun id =>
  if id ∈ shader.claimed category none then values id else given id

/-- The lowered shader takes the inputs of a category in front of its other arguments, in the
external layout, and otherwise ends like the shader that is given them in global variables. -/
def TakesInputs (shader : Shader) (category : Category) (rules : LayoutRules) (result : Shader) :
    Prop :=
  ∀ interp given values args outcome finals, shader.HasValues category values →
    (rules.widenBools = true → interp.ReadsTruth shader.program.tables) →
      (shader.program.Ends interp (shader.givenTo category (fun id => some (values id)) given) args
          (shader.Leaves category) outcome finals ↔
        result.program.Ends interp given (shader.encode category rules values :: args)
          (shader.Leaves category) outcome finals)

/-- The lowered shader ends like the shader that leaves its outputs in global variables, and unless
it is discarded it returns them in the external layout. -/
def ReturnsOutputs (shader : Shader) (category : Category) (rules : LayoutRules) (result : Shader) :
    Prop :=
  ∀ interp given args outcome finals,
    result.program.Ends interp given args (shader.Leaves category) outcome finals ↔
      ∃ ended values, shader.program.Ends interp (shader.givenTo category (fun _ => none) given) args
          (· ∈ shader.program.globalVariables) ended values ∧
        outcome = ended.map (fun _ => shader.encode category rules values) ∧
        ∀ id, shader.Leaves category id → finals id = values id

/-- What is encoded are the values of the category's variables. -/
theorem encode_congr {shader : Shader} {category : Category} {rules : LayoutRules}
    {values others : VariableId → Value}
    (same : ∀ id ∈ shader.claimed category none, values id = others id) :
    shader.encode category rules values = shader.encode category rules others := by
  unfold encode
  rw [List.flatMap_def, List.flatMap_def,
    List.map_congr_left fun id member => by rw [same id member]]

end Shader

namespace CategoryRun

variable {shader threaded : Shader} {category : Category} {rules : LayoutRules}
  {sizes : Nat → Prop} (run : CategoryRun shader category none threaded)

/-- The variables of the category are given their values. -/
theorem givenTo_member (values given : VariableId → Option Value) :
    ∀ id ∈ run.gathering.members, shader.givenTo category values given id = values id := by
  intro id member
  rw [Shader.givenTo, if_pos (run.claimed_eq ▸ member)]

/-- The other variables are given what they were. -/
theorem givenTo_other (values given : VariableId → Option Value) :
    ∀ id, id ∉ run.gathering.members → given id = shader.givenTo category values given id := by
  intro id free
  rw [Shader.givenTo, if_neg (run.claimed_eq ▸ free)]

variable (runnable : shader.program.Runnable sizes)
  (bounded : ∀ size, sizes size → 0 < size ∧ size < 2 ^ 31)
  (hasRules : category.layoutRules = some rules) (dependent : run.main ∈ run.dependents)
  (unset : ∀ id ∈ shader.claimed category none, ∀ {entry : Variable},
    shader.program.tables.vars[id.index]? = some entry → entry.initializer = none)

include runnable bounded hasRules dependent unset

/-- The inputs of a category are taken in the external layout. -/
theorem takesInputs (isIn : category.isOut = false) :
    shader.TakesInputs category rules threaded := by
  intro interp given values args outcome finals typed reads
  rw [run.claimed_eq] at unset
  have plain := run.result_plain (Category.ne_textures hasRules) runnable.plain
  obtain ⟨forth, back⟩ := Program.ends_related runnable.plain run.enters plain run.result_enters
    ⟨id, id⟩ fun fuel => run.inputs_match runnable bounded hasRules isIn dependent ⟨typed, reads⟩
      unset (run.givenTo_member _ _) (run.givenTo_other _ _) fuel args
  have watches {store other : Store} (kept : run.coupling.stores store other) {id : VariableId}
      (left : shader.Leaves category id) : other (.global id) = store (.global id) :=
    kept.globals id (run.orderly.declared_known left.1) (run.claimed_eq ▸ left.2)
  have same {ended result : Option Value} (related : Option.Rel Eq ended result) :
      ended = result := by
    cases related with
    | none => rfl
    | some isSame => rw [isSame]
  constructor
  · rintro ⟨fuel, final, ends, holds⟩
    obtain ⟨more, ⟨result, reached⟩, reaches, matched⟩ := forth ends
    obtain ⟨kept, related⟩ := matched.ended
    obtain rfl := same related
    exact ⟨more, reached, reaches, fun id left => (watches kept left).trans (holds id left)⟩
  · rintro ⟨fuel, final, reaches, holds⟩
    obtain ⟨more, ⟨ended, last⟩, ends, matched⟩ := back reaches
    obtain ⟨kept, related⟩ := matched.ended
    obtain rfl := same related
    exact ⟨more, last, ends, fun id left => (watches kept left).symm.trans (holds id left)⟩

/-- The outputs of a category are returned in the external layout. -/
theorem returnsOutputs (isOut : category.isOut = true) :
    shader.ReturnsOutputs category rules threaded := by
  intro interp given args outcome finals
  rw [run.claimed_eq] at unset
  have plain := run.result_plain (Category.ne_textures hasRules) runnable.plain
  obtain ⟨forth, back⟩ := Program.ends_related runnable.plain run.enters plain run.result_enters
    ⟨id, id⟩ fun fuel => run.outputs_match runnable bounded hasRules isOut dependent unset
      (run.givenTo_member _ _) (run.givenTo_other _ _) interp fuel args
  have watches {store other : Store}
      (kept : (Coupling.watching fun id => Old shader id ∧ id ∉ run.gathering.members).stores store
        other) {id : VariableId} (left : shader.Leaves category id) :
      other (.global id) = store (.global id) :=
    kept _ ⟨id, rfl, run.orderly.declared_known left.1, run.claimed_eq ▸ left.2⟩
  have returns {ended result : Option Value} {values : VariableId → Value}
      (related : Option.Rel (fun _ result => result = shader.encode category rules values) ended
        result) : result = ended.map fun _ => shader.encode category rules values := by
    cases related with
    | none => rfl
    | some same => rw [same]; rfl
  constructor
  · rintro ⟨fuel, final, reaches, holds⟩
    obtain ⟨more, ⟨ended, last⟩, ends, matched⟩ := back reaches
    obtain ⟨kept, related⟩ := matched.ended
    exact ⟨ended, fun id => last (.global id), ⟨more, last, ends, fun _ _ => rfl⟩, returns related,
      fun id left => (holds id left).symm.trans (watches kept left)⟩
  · rintro ⟨ended, values, ⟨fuel, last, ends, holds⟩, rfl, same⟩
    obtain ⟨more, ⟨result, reached⟩, reaches, matched⟩ := forth ends
    obtain ⟨kept, related⟩ := matched.ended
    have isValues : shader.encode category rules (fun id => last (.global id)) =
        shader.encode category rules values :=
      Shader.encode_congr fun id claimed => holds id (List.mem_filter.mp claimed).1
    refine ⟨more, reached, by rw [reaches, returns related, isValues], fun id left => ?_⟩
    rw [watches kept left, holds id left.1, same id left]

end CategoryRun

/-- Lowering an interface category that the entry point depends on succeeds, unless the entry point
returns a value where it would have to return the outputs. Then it takes the inputs as its first
argument or returns the outputs, in the external layout, and ends in the same way as before: with the
same result or discarded, and with the same values of the other globals. -/
theorem Shader.interface_preserved {shader : Shader} {category : Category} {rules : LayoutRules}
    (hasRules : category.layoutRules = some rules)
    (runnable : shader.program.Runnable fun size => 0 < size ∧ size < 2 ^ 31)
    (unset : ∀ id ∈ shader.claimed category none, ∀ {entry : Variable},
      shader.program.tables.vars[id.index]? = some entry → entry.initializer = none)
    {main : FunctionId} (enters : shader.program.Enters main)
    (depends : main ∈ shader.program.dependents (shader.claimed category none).contains)
    (supplied : Option VariableId) :
    Outcome.Settles (category.isOut = true ∧ shader.ReturnsValue) (.nonVoidMain category)
      (Lowering.lowerCategory (fun _ => .ok ()) supplied shader category) fun out =>
        if category.isOut then shader.ReturnsOutputs category rules out.2
        else shader.TakesInputs category rules out.2 := by
  have unsupplied : category.suppliedTo supplied = none := by
    cases category <;> simp_all [Category.layoutRules, Category.suppliedTo]
  have suits : shader.Suits category (category.suppliedTo supplied)
      fun size => 0 < size ∧ size < 2 ^ 31 := {
    grounded := runnable.toGrounded
    filled := fun _ _ isSize => isSize.1
    samplers := fun isTextures => absurd isTextures (Category.ne_textures hasRules)
    addresses := fun isTextures => absurd isTextures (Category.ne_textures hasRules)
    supplied := by simp [unsupplied] }
  refine (Lowering.lowerCategory_settles suits).imp_right ?_
  rintro ⟨⟨structs, result⟩, lowers, settled⟩
  refine ⟨(structs, result), lowers, ?_⟩
  rw [unsupplied] at settled suits
  rcases settled with ⟨-, empty⟩ | ⟨step, -⟩
  · have none := @Program.dependents_least _ ([] : List VariableId).contains
      runnable.onceDefinitions [] (by simp) (by simp)
    rw [empty] at depends
    exact absurd (none depends) (by simp)
  · have dependent := step.run.main_dependent enters depends
    have grounded := step.run.result_grounded suits.grounded suits.filled suits.addresses
    have thins := step.pruned.thins.ends_iff grounded.toOrderly
      (step.run.result_plain (Category.ne_textures hasRules) runnable.plain) step.run.result_enters
    split
    case isTrue isOut =>
      intro interp given args outcome finals
      exact (thins interp given args _ outcome finals).symm.trans
        (step.run.returnsOutputs runnable (fun _ => id) hasRules dependent unset isOut interp given
          args outcome finals)
    case isFalse isIn =>
      intro interp given values args outcome finals typed reads
      exact (step.run.takesInputs runnable (fun _ => id) hasRules dependent unset (by simpa using isIn)
        interp given values args outcome finals typed reads).trans
          (thins interp given _ _ outcome finals)

/-- A vertex shader with truth values among its uniforms and an array among its outputs, which it
leaves alone if the first truth value holds. -/
def Shader.gating : Shader where
  program := {
    tables := {
      stage := .vertex
      types := (predefinedTypes ++ [Ty.array .bool 2, Ty.array .float 2]).toArray
      vars := #[
        { name := ⟨"enabled", .shaderInterface⟩, type := ⟨21⟩, decorations := [.uniform],
          scope := .global },
        { name := ⟨"weights", .shaderInterface⟩, type := ⟨22⟩, decorations := [.output],
          scope := .global }]
      functions := #[.named "main" [] .void .notApplicable] }
    globals := [.var ⟨0⟩, .var ⟨1⟩,
      .definition ⟨0⟩ [.ifThen (.index (.var ⟨0⟩) (.const (.int 0))) [.ret none],
        .assign (.index (.var ⟨1⟩) (.const (.int 1))) (.const (.float 0x3f800000))]] }

/-- The shader can be run. -/
theorem Shader.gating_runnable :
    gating.program.Runnable fun size => 0 < size ∧ size < 2 ^ 31 where
  toOrderly := by decide +kernel
  acyclic := by decide
  sized {index element size} known := by
    have among := Array.mem_of_getElem? known
    simp only [gating, predefinedTypes, List.mem_toArray, List.mem_append, List.mem_cons,
      Ty.array.injEq, reduceCtorEq, List.not_mem_nil, or_false, false_or] at among
    obtain ⟨-, rfl⟩ | ⟨-, rfl⟩ := among <;> decide
  params := (by decide : gating.program.tables.FunctionsClosed).params
  plain := by decide
  direct := by decide

/-- Its entry point is its only function. -/
theorem Shader.gating_enters : gating.program.Enters ⟨0⟩ where
  defined := ⟨_, List.mem_singleton.mpr rfl⟩
  isMain definition defined := by
    rw [List.mem_singleton.mp defined]
    exact ⟨_, rfl, by decide⟩

/-- Numbers are read as truth values, in a vector one component at a time. -/
def Value.narrow : Value → Value
  | scalar (.uint number) => scalar (.bool (number != 0))
  | aggregate parts => aggregate (parts.map fun
    | scalar (.uint number) => scalar (.bool (number != 0))
    | part => part)
  | other => other

/-- An interpretation that reads truth values from numbers. -/
def Interpretation.narrowing : Interpretation where
  unary _ operand := operand
  binary _ left _ := left
  construct _ args := (args.head?.getD default).narrow
  sample sampler _ := sampler
  address operand := operand

/-- The interpretation reads truth values from numbers. -/
theorem Interpretation.narrowing_readsTruth (tables : Tables) : narrowing.ReadsTruth tables where
  scalar _ _ := rfl
  vector _ numbers _ := by simp [narrowing, Value.narrow]

/-- The lowered uniforms of `Shader.gating` are taken with their truth values as numbers, and if the
first is set it leaves early. Its lowered outputs are returned one by one. -/
theorem Shader.interface_preserved_gating :
    (∃ structs result, (Lowering.lowerCategory (fun _ => .ok ()) none gating .userUniforms :
        Result (Scoped TypeId × Shader)) = .ok (structs, result) ∧
      result.program.Ends .narrowing (fun _ => none)
        [.aggregate [.aggregate [.scalar (.uint 1), .scalar (.uint 0)]]]
        (gating.Leaves .userUniforms) (some default)
        fun _ => .aggregate [.scalar (.float 0), .scalar (.float 0)]) ∧
    ∃ structs result, (Lowering.lowerCategory (fun _ => .ok ()) none gating .vertexOut :
        Result (Scoped TypeId × Shader)) = .ok (structs, result) ∧
      result.program.Ends .narrowing (fun _ => none) [] (gating.Leaves .vertexOut)
        (some (.aggregate [.scalar (.float 0), .scalar (.float 0x3f800000)]))
        fun _ => .aggregate [.scalar (.bool false), .scalar (.bool false)] := by
  have unset : ∀ entry ∈ gating.program.tables.vars, entry.initializer = none := by decide
  constructor
  · obtain ⟨-, isOut, -⟩ | ⟨⟨structs, result⟩, lowers, takes⟩ :=
      @interface_preserved gating .userUniforms _ rfl gating_runnable
        (fun _ _ {entry} known => unset entry (Array.mem_of_getElem? known)) _ gating_enters
        (by decide) none
    · simp [Category.isOut] at isOut
    · have isBool (value : Bool) : gating.program.tables.HasValue .bool (.scalar (.bool value)) :=
        .scalar rfl (.bool value)
      have typed : gating.HasValues .userUniforms
          fun _ => .aggregate [.scalar (.bool true), .scalar (.bool false)] := by
        intro id claimed entry known
        obtain rfl : id = ⟨0⟩ := List.mem_singleton.mp claimed
        obtain rfl := Option.some.inj known
        exact .of_parts rfl rfl (.cons (isBool true) (.cons (isBool false) .nil))
      refine ⟨structs, result, lowers, (takes _ _ _ [] (some default) _ typed
        (fun _ => Interpretation.narrowing_readsTruth _)).mp ⟨1, _, rfl, fun id left => ?_⟩⟩
      have isOutput : ∀ id ∈ gating.program.globalVariables,
          id ∉ gating.claimed .userUniforms none → id = ⟨1⟩ := by decide
      rw [isOutput id left.1 left.2]
      rfl
  · obtain ⟨-, -, main, entry, enters, known, value⟩ | ⟨⟨structs, result⟩, lowers, returns⟩ :=
      @interface_preserved gating .vertexOut _ rfl gating_runnable
        (fun _ _ {entry} known => unset entry (Array.mem_of_getElem? known)) _ gating_enters
        (by decide) none
    · obtain rfl := enters.unique gating_enters
      obtain rfl := Option.some.inj known
      exact absurd rfl value
    · refine ⟨structs, result, lowers, (returns _ _ [] _ _).mpr
        ⟨some default, _, ⟨1, _, rfl, fun _ _ => rfl⟩, rfl, fun id left => ?_⟩⟩
      have isUniform : ∀ id ∈ gating.program.globalVariables,
          id ∉ gating.claimed .vertexOut none → id = ⟨0⟩ := by decide
      rw [isUniform id left.1 left.2]
      rfl

end ShaderPipeline
