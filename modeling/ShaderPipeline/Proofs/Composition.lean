import ShaderPipeline.Proofs.Signatures

/-!
# Signatures compose

Every category copies the copies that the earlier ones made. `Advances` says what
one category makes of the functions of a shader, `Composes` what all of them
together do: a helper ends up with one parameter for every category that it
depended on at its turn, the last one first, and the entry point with the
parameters of all its categories around its own.
-/

namespace ShaderPipeline

/-- The functions that depend on a category, if it is lowered next. -/
def Shader.dependsOn (shader : Shader) (category : Category) (supplied : Option VariableId) :
    List FunctionId :=
  match shader.gather category (category.suppliedTo supplied) with
  | .ok (some gathering, gathered) => gathered.program.dependents gathering.members.contains
  | _ => []

/-! ## One category -/

/-- What one category makes of the functions of a shader. -/
structure Advances (supplied : Option VariableId) (shader : Shader) (category : Category)
    (pair : Scoped TypeId) (next : Shader) (main : FunctionId)
    (replace : FunctionId → FunctionId) : Prop where
  lowers : Lowering.lowerCategory (fun _ => .ok ()) supplied shader category =
    (.ok (pair, next) : Result _)
  evolves : shader.program.tables.Evolves next.program.tables
  aligned : Aligned (shader.Lasting [(category, pair)] next) (· ∉ next.program.globalVariables)
    replace shader.program.globals next.program.globals
  enters : next.program.Enters (replace main)
  distinct : ∀ function ∈ shader.program.declaredFunctions, function ≠ main →
    replace function ≠ replace main
  free : ∀ function, function ∉ shader.dependsOn category supplied → replace function = function
  inert : ∀ function, shader.program.Inert function →
    function ∉ shader.dependsOn category supplied ∧ next.program.Inert function
  helper : ∀ function ∈ shader.dependsOn category supplied, function ≠ main →
    ∀ {entry : Function}, shader.program.tables.functions[function.index]? = some entry →
      ∃ param type, pair.internal = some type ∧
        Tables.NewParams shader.program.tables next.program.tables [param] ∧
        next.program.tables.Takes param type ∧
        next.program.tables.functions[(replace function).index]? = some (entry.prepend param)
  entry : main ∈ shader.dependsOn category supplied → ∀ {entry : Function},
    shader.program.tables.functions[main.index]? = some entry →
      ∃ external final front back, pair.external = some external ∧ external ≠ .void ∧
        next.program.tables.functions[(replace main).index]? = some final ∧
        EntrySignature shader.program.tables next.program.tables category external entry final
          front back

/-- A lowering of a category and some more goes through the first one. -/
theorem Advances.lowers_cons {supplied : Option VariableId} {category : Category}
    {shader next before : Shader} {pair : Scoped TypeId} {main : FunctionId}
    {replace : FunctionId → FunctionId}
    (advances : Advances supplied shader category pair next main replace)
    {front : List Category} {pairs : CategoryStructs}
    (lowers : Lowering.lowerCategories (fun _ => .ok ()) supplied (category :: front) shader =
      (.ok (pairs, before) : Result _)) :
    ∃ others, pairs = (category, pair) :: others ∧
      Lowering.lowerCategories (fun _ => .ok ()) supplied front next =
        (.ok (others, before) : Result _) := by
  simp only [Lowering.lowerCategories, advances.lowers, Outcome.ok_bind, Outcome.bind_eq_ok_iff,
    Outcome.pure_eq_ok, Except.ok.injEq, Prod.mk.injEq] at lowers
  obtain ⟨⟨others, last⟩, lowers, rfl, rfl⟩ := lowers
  exact ⟨others, rfl, lowers⟩

/-- A category that claims nothing leaves all functions as they are. -/
theorem Advances.of_unclaimed {supplied : Option VariableId} {shader : Shader}
    {category : Category} {main : FunctionId} (enters : shader.program.Enters main)
    (unclaimed : ∀ id ∈ shader.program.globalVariables,
      category.claims shader.program.tables (category.suppliedTo supplied) id = .ok false) :
    Advances supplied shader category {} shader main id := by
  have none : shader.dependsOn category supplied = [] := by
    rw [Shader.dependsOn, Shader.gather_eq_none_iff.mpr ⟨rfl, unclaimed⟩]
  exact {
    lowers := Lowering.lowerCategory_of_unclaimed unclaimed
    evolves := .refl _
    aligned := .refl _
    enters := enters
    distinct := fun _ _ other => other
    free := fun _ _ => rfl
    inert := fun _ inert => ⟨by simp [none], inert⟩
    helper := by simp [none]
    entry := by simp [none] }

namespace StepRun

variable {shader result : Shader} {category : Category} {supplied : Option VariableId}
  (step : StepRun shader category supplied result)

/-- The entry point of what is left stands for the old one. -/
theorem result_enters : result.program.Enters (step.run.replace step.run.main) where
  defined := by
    obtain ⟨body, defined⟩ := step.run.result_enters.defined
    obtain ⟨⟨_, trimmed⟩, there, rfl, -⟩ :=
      Outcome.forall₂_exists_right step.pruned.definitions defined
    exact ⟨trimmed, there⟩
  isMain definition there := by
    obtain ⟨before, defined, same, -⟩ :=
      Outcome.forall₂_exists_left step.pruned.definitions there
    rw [step.pruned.tables_eq, same]
    exact step.run.result_enters.isMain before defined

/-- No other function becomes the entry point. -/
theorem replace_ne_main {function : FunctionId}
    (declared : function ∈ shader.program.declaredFunctions) (other : function ≠ step.run.main) :
    step.run.replace function ≠ step.run.replace step.run.main := by
  obtain ⟨mainBody, mainDefined⟩ := step.run.enters.defined
  by_cases dependent : function ∈ step.run.dependents
  · obtain ⟨body, defined⟩ := step.run.dependent_defined dependent
    intro same
    exact other (step.run.replace_injective (step.run.gathered_defined defined)
      (step.run.gathered_defined mainDefined) same)
  · rw [step.run.replace_eq_self dependent]
    by_cases mainDependent : step.run.main ∈ step.run.dependents
    · obtain ⟨entry, known⟩ := step.run.orderly.function_known declared
      exact (step.run.replace_ne mainDependent dependent
        (Array.getElem?_eq_some_iff.mp (step.run.gathered_extends.functions known)).1).symm
    · rw [step.run.replace_eq_self mainDependent]
      exact other

end StepRun

/-- A category that is lowered replaces the functions that depend on it. -/
theorem LoweringStep.advances {supplied : Option VariableId} {shader next : Shader}
    {category : Category} {gathering : Gathering}
    (step : LoweringStep shader category (category.suppliedTo supplied) gathering next)
    (orderly : shader.program.Orderly) {main : FunctionId}
    (enters : shader.program.Enters main) :
    next.program.Orderly ∧ ∃ replace,
      Advances supplied shader category gathering.structs next main replace := by
  obtain ⟨run, isGathering, isGathered⟩ := step.exists_stepRun orderly Category.suppliedTo_only
  obtain rfl : run.run.main = main := run.run.enters.unique enters
  obtain rfl : run.run.gathering = gathering := isGathering
  have dependents : shader.dependsOn category supplied = run.run.dependents := by
    rw [Shader.dependsOn, step.gathers, CategoryRun.dependents, isGathered]
  refine ⟨run.result_orderly step.valid, run.run.replace, ?_⟩
  exact {
    lowers := Lowering.lowerCategory_of_step step
    evolves := step.evolves
    aligned := run.aligned
    enters := run.result_enters
    distinct := fun function declared other => run.replace_ne_main declared other
    free := fun function free => run.run.replace_eq_self (dependents ▸ free)
    inert := fun function inert => ⟨dependents ▸ run.free_of_inert inert, run.inert inert⟩
    helper := fun function dependent helps entry known => by
      obtain ⟨param, news, takes, copied⟩ :=
        run.helper_signature (dependents ▸ dependent) helps known
      exact ⟨param, _, rfl, news, takes, copied⟩
    entry := fun dependent entry known => by
      obtain ⟨final, front, back, finalKnown, signature⟩ :=
        run.entry_signature (dependents ▸ dependent) known
      exact ⟨_, final, front, back, rfl, run.run.external_ne_void, finalKnown, signature⟩ }

/-! ## All categories -/

/-- The signature of a helper with a parameter for each of several categories, the last one
first. -/
structure HelperComposition (structs : CategoryStructs) (before after : Tables)
    (categories : List Category) (entry final : Function) (params : List Param) : Prop where
  news : Tables.NewParams before after params
  types : List.Forall₂ (fun category param => ∃ pair type, (category, pair) ∈ structs ∧
    pair.internal = some type ∧ after.Takes param type) categories params
  signature : final = { entry with params := params.reverse ++ entry.params }

/-- The signature of the entry point with the parameters of several categories, those in front in
reverse. It returns the struct of the category whose outputs it hands over, if there is one. -/
structure EntryComposition (structs : CategoryStructs) (before after : Tables)
    (categories : List Category) (entry final : Function)
    (added : List (List Param × List Param)) : Prop where
  news : Tables.NewParams before after (added.flatMap fun params => params.1 ++ params.2)
  shapes : List.Forall₂ (fun category params => ∃ pair external, (category, pair) ∈ structs ∧
    pair.external = some external ∧
      EntryParams after external category.entry params.1 params.2) categories added
  name : final.name = entry.name
  params : final.params = added.reverse.flatMap Prod.fst ++ entry.params ++ added.flatMap Prod.snd
  kept : (∀ category ∈ categories, category.isOut = false) →
    final.returnType = entry.returnType ∧ final.returnPrecision = entry.returnPrecision
  returned : ∀ category ∈ categories, category.isOut = true → entry.returnType = .void ∧
    ∃ pair, (category, pair) ∈ structs ∧ pair.external = some final.returnType ∧
      final.returnPrecision = .notApplicable

section Composition

variable {structs : CategoryStructs} {first before middle after : Tables} {category : Category}
  {categories : List Category} {pair : Scoped TypeId} {entry between final : Function}

/-- Without categories, a helper keeps its signature. -/
theorem HelperComposition.nil (structs : CategoryStructs) (tables : Tables) (entry : Function) :
    HelperComposition structs tables tables [] entry entry [] :=
  ⟨.nil _ _, .nil, rfl⟩

/-- So does the entry point. -/
theorem EntryComposition.nil (structs : CategoryStructs) (tables : Tables) (entry : Function) :
    EntryComposition structs tables tables [] entry entry [] :=
  ⟨.nil _ _, .nil, rfl, by simp, fun _ => ⟨rfl, rfl⟩, by simp⟩

/-- A category on the way that the helper does not depend on. -/
theorem HelperComposition.pass {params : List Param}
    (rest : HelperComposition structs middle after categories entry final params)
    (evolves : before.Evolves middle) :
    HelperComposition ((category, pair) :: structs) before after categories entry final params where
  news := rest.news.mono evolves.size_vars (Nat.le_refl _)
  types := rest.types.imp fun _ _ ⟨other, type, member, isType, takes⟩ =>
    ⟨other, type, List.mem_cons_of_mem _ member, isType, takes⟩
  signature := rest.signature

/-- A category that the helper depends on. -/
theorem HelperComposition.cons {param : Param} {type : TypeId} {params : List Param}
    (isType : pair.internal = some type) (news : Tables.NewParams before middle [param])
    (takes : middle.Takes param type) (toMiddle : before.Evolves middle)
    (toAfter : middle.Evolves after)
    (rest : HelperComposition structs middle after categories (entry.prepend param) final params) :
    HelperComposition ((category, pair) :: structs) before after (category :: categories) entry
      final (param :: params) := by
  have passed : HelperComposition ((category, pair) :: structs) before after categories
    (entry.prepend param) final params := rest.pass toMiddle
  refine ⟨news.append rest.news toMiddle toAfter, .cons ?_ passed.types, ?_⟩
  · exact ⟨pair, type, List.mem_cons_self, isType, takes.evolves toAfter⟩
  · rw [rest.signature]
    simp [Function.prepend]

/-- A category on the way that the entry point does not depend on. -/
theorem EntryComposition.pass {added : List (List Param × List Param)}
    (rest : EntryComposition structs middle after categories entry final added)
    (evolves : before.Evolves middle) :
    EntryComposition ((category, pair) :: structs) before after categories entry final added where
  news := rest.news.mono evolves.size_vars (Nat.le_refl _)
  shapes := rest.shapes.imp fun _ _ ⟨other, external, member, isExternal, shape⟩ =>
    ⟨other, external, List.mem_cons_of_mem _ member, isExternal, shape⟩
  name := rest.name
  params := rest.params
  kept := rest.kept
  returned := fun out member isOut => by
    obtain ⟨void, other, own, returned⟩ := rest.returned out member isOut
    exact ⟨void, other, List.mem_cons_of_mem _ own, returned⟩

/-- A category that the entry point depends on. -/
theorem EntryComposition.cons {external : TypeId} {front back : List Param}
    {added : List (List Param × List Param)} (isExternal : pair.external = some external)
    (notVoid : external ≠ .void) (toMiddle : before.Evolves middle)
    (toAfter : middle.Evolves after)
    (signature : EntrySignature before middle category external entry between front back)
    (rest : EntryComposition structs middle after categories between final added) :
    EntryComposition ((category, pair) :: structs) before after (category :: categories) entry
      final ((front, back) :: added) where
  news := by
    rw [List.flatMap_cons]
    exact signature.news.append rest.news toMiddle toAfter
  shapes := by
    have passed : EntryComposition ((category, pair) :: structs) before after categories between
      final added := rest.pass toMiddle
    exact .cons ⟨pair, external, List.mem_cons_self, isExternal, signature.shape.evolves toAfter⟩
      passed.shapes
  name := rest.name.trans signature.name
  params := by
    rw [rest.params, signature.params]
    simp [List.flatMap_append]
  kept plain := by
    rw [List.forall_mem_cons] at plain
    obtain ⟨restType, restPrecision⟩ := rest.kept plain.2
    obtain ⟨isType, isPrecision⟩ := signature.kept plain.1
    exact ⟨restType.trans isType, restPrecision.trans isPrecision⟩
  returned out member isOut := by
    rcases List.mem_cons.mp member with rfl | later
    · -- No later category can return a struct: the entry point is not void any more.
      obtain ⟨void, returns, precision⟩ := signature.returned isOut
      have plain : ∀ other ∈ categories, other.isOut = false := by
        intro other own
        by_contra alsoOut
        obtain ⟨isVoid, -⟩ := rest.returned other own (by simpa using alsoOut)
        exact notVoid (returns.symm.trans isVoid)
      obtain ⟨sameType, samePrecision⟩ := rest.kept plain
      exact ⟨void, pair, List.mem_cons_self, by rw [isExternal, sameType, returns],
        samePrecision.trans precision⟩
    · obtain ⟨isVoid, other, own, returned⟩ := rest.returned out later isOut
      have plain : category.isOut = false := by
        by_contra alsoOut
        obtain ⟨-, returns, -⟩ := signature.returned (by simpa using alsoOut)
        exact notVoid (returns.symm.trans isVoid)
      exact ⟨(signature.kept plain).1.symm.trans isVoid, other, List.mem_cons_of_mem _ own,
        returned⟩

end Composition

/-- How the functions of a shader come through the lowering of several categories: which function
stands for a function after some of them, and which of them it depends on at their turn. -/
structure Composes (supplied : Option VariableId) (categories : List Category) (shader : Shader)
    (structs : CategoryStructs) (result : Shader) (main : FunctionId)
    (stands : List Category → FunctionId → FunctionId) (takes : FunctionId → List Category) :
    Prop where
  start : ∀ function, stands [] function = function
  /-- Structs, prototypes and definitions stay in their order, among the new ones. -/
  aligned : ∀ {front rest : List Category} {pairs : CategoryStructs} {before : Shader},
    categories = front ++ rest →
    Lowering.lowerCategories (fun _ => .ok ()) supplied front shader =
      (.ok (pairs, before) : Result _) →
    Aligned (shader.Inserted pairs before) (· ∉ before.program.globalVariables) (stands front)
      shader.program.globals before.program.globals
  ordered : ∀ function, (takes function).Sublist categories
  /-- A function takes part in a category if what stands for it then depends on the category. -/
  taken : ∀ {front rest : List Category} {category : Category} {pairs : CategoryStructs}
    {before : Shader}, categories = front ++ category :: rest →
    Lowering.lowerCategories (fun _ => .ok ()) supplied front shader =
      (.ok (pairs, before) : Result _) →
    ∀ function ∈ shader.program.declaredFunctions,
      (category ∈ takes function ↔ stands front function ∈ before.dependsOn category supplied)
  helper : ∀ function ∈ shader.program.declaredFunctions, function ≠ main →
    ∃ entry final params, shader.program.tables.functions[function.index]? = some entry ∧
      result.program.tables.functions[(stands categories function).index]? = some final ∧
      HelperComposition structs shader.program.tables result.program.tables (takes function) entry
        final params
  entry : ∃ entry final added, shader.program.tables.functions[main.index]? = some entry ∧
    result.program.tables.functions[(stands categories main).index]? = some final ∧
    EntryComposition structs shader.program.tables result.program.tables (takes main) entry final
      added

namespace Shader.Inserted

variable {shader next result : Shader} {pair : Category × Scoped TypeId}
  {structs : CategoryStructs} {global changed : Global}

/-- What a later category inserts is inserted on the whole. -/
theorem later (inserted : next.Inserted structs result global)
    (evolves : shader.program.tables.Evolves next.program.tables) :
    shader.Inserted (pair :: structs) result global := by
  cases global with
  | struct type =>
    obtain ⟨fresh, entry, member, either⟩ := inserted
    exact ⟨Nat.le_trans evolves.size_types fresh, entry, List.mem_cons_of_mem _ member, either⟩
  | definition function body =>
    obtain ⟨fresh, entry, member, rules, first, hasRules, known⟩ := inserted
    exact ⟨Nat.le_trans evolves.size_functions fresh, entry, List.mem_cons_of_mem _ member, rules,
      first, hasRules, known⟩
  | var | prototype => exact inserted

/-- What a category inserts stays inserted, if its function does not change. -/
theorem earlier {stands : FunctionId → FunctionId} (inserted : shader.Inserted [pair] next global)
    (renames : global.Renames stands changed)
    (fixed : ∀ function, global.function? = some function → stands function = function)
    (evolves : next.program.tables.Evolves result.program.tables) :
    shader.Inserted (pair :: structs) result changed := by
  cases renames with
  | struct type =>
    obtain ⟨fresh, entry, member, either⟩ := inserted
    obtain rfl := List.mem_singleton.mp member
    exact ⟨fresh, entry, List.mem_cons_self, either⟩
  | definition function body =>
    obtain ⟨fresh, entry, member, rules, first, hasRules, known⟩ := inserted
    obtain rfl := List.mem_singleton.mp member
    rw [fixed function rfl]
    exact ⟨fresh, entry, List.mem_cons_self, rules, first, hasRules, evolves.functions known⟩
  | var | prototype => exact inserted

end Shader.Inserted

/-- The function that stands for a function after one category and then some others. -/
def advance (replace : FunctionId → FunctionId) (stands : List Category → FunctionId → FunctionId) :
    List Category → FunctionId → FunctionId
  | [], function => function
  | _ :: front, function => stands front (replace function)

namespace Composes

variable {supplied : Option VariableId} {category : Category} {categories : List Category}
  {shader next result : Shader} {pair : Scoped TypeId} {structs : CategoryStructs}
  {main : FunctionId} {replace : FunctionId → FunctionId}
  {stands : List Category → FunctionId → FunctionId} {takes : FunctionId → List Category}

/-- Before any category is lowered, every function stands for itself. -/
theorem done (orderly : shader.program.Orderly) (enters : shader.program.Enters main) :
    Composes supplied [] shader [] shader main (fun _ function => function) fun _ => [] where
  start _ := rfl
  aligned isFront lowers := by
    obtain ⟨rfl, -⟩ := List.append_eq_nil_iff.mp isFront.symm
    cases Lowering.lowerCategories_inv lowers
    exact .refl _
  ordered _ := .refl _
  taken isFront := by simp at isFront
  helper function declared _ := by
    obtain ⟨entry, known⟩ := orderly.function_known declared
    exact ⟨entry, entry, [], known, known, .nil _ _ entry⟩
  entry := by
    obtain ⟨body, defined⟩ := enters.defined
    obtain ⟨entry, known, -⟩ := enters.isMain _ defined
    exact ⟨entry, entry, [], known, known, .nil _ _ entry⟩

/-- One more category at the start. -/
theorem cons (advances : Advances supplied shader category pair next main replace)
    (orderly : shader.program.Orderly) (enters : shader.program.Enters main)
    (once : category ∉ categories) (toResult : next.program.tables.Evolves result.program.tables)
    (rest : Composes supplied categories next structs result (replace main) stands takes)
    (fixed : ∀ function, next.program.Inert function → ∀ front, stands front function = function) :
    Composes supplied (category :: categories) shader ((category, pair) :: structs) result main
      (advance replace stands) fun function =>
        if function ∈ shader.dependsOn category supplied then category :: takes (replace function)
        else takes (replace function) where
  start _ := rfl
  aligned {front others pairs before} isFront lowers := by
    cases front with
    | nil =>
      cases Lowering.lowerCategories_inv lowers
      exact .refl _
    | cons head front =>
      obtain ⟨rfl, isRest⟩ := List.cons.inj isFront
      obtain ⟨pairs, rfl, lowersRest⟩ := advances.lowers_cons lowers
      have run := Lowering.lowerCategories_inv lowersRest
      exact advances.aligned.trans (rest.aligned isRest lowersRest)
        (fun id lasting => Shader.Inserted.not_var id lasting.1)
        (fun _ _ lasting renames => lasting.1.earlier renames
          (fun function isFunction => fixed function (lasting.2 function isFunction) front)
          run.evolves)
        (fun _ inserted => inserted.later advances.evolves)
        (fun _ gone declared => gone (run.globalVariables_subset declared)) fun _ gone => gone
  ordered function := by
    split
    · exact (rest.ordered (replace function)).cons_cons category
    · exact (rest.ordered (replace function)).cons category
  taken {front others chosen pairs before} isFront lowers function declared := by
    have notTwice : category ∉ takes (replace function) := fun member =>
      once ((rest.ordered _).subset member)
    cases front with
    | nil =>
      obtain ⟨rfl, rfl⟩ := List.cons.inj isFront
      cases Lowering.lowerCategories_inv lowers
      dsimp only [advance]
      split
      case isTrue dependent => simp [dependent]
      case isFalse free => simp [free, notTwice]
    | cons head front =>
      obtain ⟨rfl, isRest⟩ := List.cons.inj isFront
      obtain ⟨pairs, rfl, lowersRest⟩ := advances.lowers_cons lowers
      have different : chosen ≠ category := by
        rintro rfl
        exact once (by simp [isRest])
      have later := rest.taken isRest lowersRest (replace function)
        (advances.aligned.declared declared)
      dsimp only [advance]
      split
      · simpa [different] using later
      · exact later
  helper function declared other := by
    obtain ⟨entry, known⟩ := orderly.function_known declared
    obtain ⟨between, final, params, betweenKnown, finalKnown, composition⟩ :=
      rest.helper (replace function) (advances.aligned.declared declared)
        (advances.distinct function declared other)
    dsimp only [advance]
    split
    case isTrue dependent =>
      obtain ⟨param, type, isType, news, takesParam, copied⟩ :=
        advances.helper function dependent other known
      obtain rfl : entry.prepend param = between := by simpa [copied] using betweenKnown
      exact ⟨entry, final, param :: params, known, finalKnown,
        .cons isType news takesParam advances.evolves toResult composition⟩
    case isFalse free =>
      have same := advances.free function free
      rw [same] at betweenKnown
      obtain rfl : entry = between := by
        simpa [advances.evolves.functions known] using betweenKnown
      exact ⟨entry, final, params, known, finalKnown, composition.pass advances.evolves⟩
  entry := by
    obtain ⟨body, defined⟩ := enters.defined
    obtain ⟨entry, known, -⟩ := enters.isMain _ defined
    obtain ⟨between, final, added, betweenKnown, finalKnown, composition⟩ := rest.entry
    dsimp only [advance]
    split
    case isTrue dependent =>
      obtain ⟨external, copy, front, back, isExternal, notVoid, copied, signature⟩ :=
        advances.entry dependent known
      obtain rfl : copy = between := by simpa [copied] using betweenKnown
      exact ⟨entry, final, (front, back) :: added, known, finalKnown,
        .cons isExternal notVoid advances.evolves toResult signature composition⟩
    case isFalse free =>
      have same := advances.free main free
      rw [same] at betweenKnown
      obtain rfl : entry = between := by
        simpa [advances.evolves.functions known] using betweenKnown
      exact ⟨entry, final, added, known, finalKnown, composition.pass advances.evolves⟩

end Composes

/-- Every run of categories composes, and functions that refer to nothing outside are never
replaced. -/
theorem LoweringRun.composes {supplied : Option VariableId} {categories : List Category}
    {shader result : Shader} {structs : CategoryStructs}
    (run : LoweringRun supplied categories shader structs result) (once : categories.Nodup)
    (orderly : shader.program.Orderly) {main : FunctionId} (enters : shader.program.Enters main) :
    ∃ stands takes, Composes supplied categories shader structs result main stands takes ∧
      ∀ function, shader.program.Inert function → ∀ front, stands front function = function := by
  have extend {category : Category} {categories : List Category} {shader next result : Shader}
      {pair : Scoped TypeId} {structs : CategoryStructs} {main : FunctionId}
      {replace : FunctionId → FunctionId}
      (advances : Advances supplied shader category pair next main replace)
      (orderly : shader.program.Orderly) (enters : shader.program.Enters main)
      (once : category ∉ categories) (run : LoweringRun supplied categories next structs result)
      (rest : ∃ stands takes,
        Composes supplied categories next structs result (replace main) stands takes ∧
          ∀ function, next.program.Inert function → ∀ front, stands front function = function) :
      ∃ stands takes, Composes supplied (category :: categories) shader
          ((category, pair) :: structs) result main stands takes ∧
        ∀ function, shader.program.Inert function → ∀ front, stands front function = function := by
    obtain ⟨stands, takes, composes, fixed⟩ := rest
    refine ⟨_, _, composes.cons advances orderly enters once run.evolves fixed,
      fun function inert front => ?_⟩
    obtain ⟨free, later⟩ := advances.inert function inert
    cases front with
    | nil => rfl
    | cons _ front => rw [advance, advances.free function free, fixed function later front]
  induction run generalizing main with
  | done shader => exact ⟨_, _, .done orderly enters, fun _ _ _ => rfl⟩
  | passed unclaimed rest inductionHypothesis =>
    obtain ⟨new, onceRest⟩ := List.nodup_cons.mp once
    exact extend (.of_unclaimed enters unclaimed) orderly enters new rest
      (inductionHypothesis onceRest orderly enters)
  | lowered step rest inductionHypothesis =>
    obtain ⟨new, onceRest⟩ := List.nodup_cons.mp once
    obtain ⟨nextOrderly, replace, advances⟩ := step.advances orderly enters
    exact extend advances orderly enters new rest
      (inductionHypothesis onceRest nextOrderly advances.enters)

/-- The signatures of a lowered shader are those of the shader, composed with what every category
adds for the functions that depended on it at its turn. -/
theorem Shader.lower_signatures {shader lowered : Shader} {supplied : Option VariableId}
    {structs : CategoryStructs} (orderly : shader.program.Orderly)
    (lowers : shader.lower supplied = .ok (structs, lowered)) :
    ∃ main stands takes, shader.program.Enters main ∧
      Composes supplied Category.all shader structs lowered main stands takes := by
  obtain ⟨main, enters⟩ := orderly.enters
  obtain ⟨stands, takes, composes, -⟩ :=
    (Lowering.lowerCategories_inv lowers).composes (by decide) orderly enters
  exact ⟨main, stands, takes, enters, composes⟩

/-- The signatures of `Shader.storing` compose: its entry point is the second function. -/
theorem Shader.lower_signatures_storing : ∃ structs lowered stands takes,
    storing.lower none = .ok (structs, lowered) ∧
      Composes none Category.all storing structs lowered ⟨1⟩ stands takes := by
  obtain ⟨⟨structs, lowered⟩, lowers, -⟩ := Outcome.exists_ok_of_any
    (by decide +kernel : ((storing.lower none).toOption.any fun _ => true) = true)
  obtain ⟨main, stands, takes, enters, composes⟩ := lower_signatures storing_orderly lowers
  obtain ⟨entry, known, isMain⟩ := enters.isMain
    (⟨1⟩, [.eval (.call ⟨0⟩ [.const (.float 0)])]) (by simp [storing, Program.definitions,
      Global.definition?])
  obtain rfl : Function.named "main" [] .void .notApplicable = entry := by
    simpa [storing] using known
  obtain rfl : ⟨1⟩ = main := isMain.mp (by decide)
  exact ⟨structs, lowered, stands, takes, lowers, composes⟩

end ShaderPipeline
