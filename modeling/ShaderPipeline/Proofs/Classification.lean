import ShaderPipeline.Proofs.Remaining

/-!
# Which category gets a variable

Several categories may claim a variable. The first of them in the order of
processing gets it, as the shader is before anything is lowered: what is lowered
in between changes no claim. A variable that is not part of the interface may
also be pruned before its category is reached, and only then it is missing from
the struct of the category.
-/

namespace ShaderPipeline

/-! ## Claims in the meantime -/

namespace Tables

variable {before after : Tables}

/-- Structs that are added make no samplers. -/
theorem isSampler_of_structs (evolves : before.Evolves after)
    (news : ∀ {index : Nat} {type : Ty}, before.types.size ≤ index →
      after.types[index]? = some type → type.isStruct = true)
    {type : TypeId} (sampler : after.isSampler type = .ok true) :
    before.isSampler type = .ok true := by
  have earlier {id : TypeId} {type : Ty} (known : after.types[id.index]? = some type)
      (other : type.isStruct = false) : before.types[id.index]? = some type := by
    by_cases old : id.index < before.types.size
    · have there := Array.getElem?_eq_getElem old
      rw [evolves.types there] at known
      rw [there, known]
    · simp [news (Nat.not_lt.mp old) known] at other
  rw [isSampler_eq_ok_iff] at sampler ⊢
  obtain ⟨extents, base, entry, shape, known, isImage⟩ := sampler
  have notStruct : entry.isStruct = false := by
    cases entry <;> simp [Ty.isSampledImage, Ty.isStruct] at isImage ⊢
  refine ⟨extents, base, entry, ?_, earlier known notStruct, isImage⟩
  induction shape with
  | base known' plain =>
    obtain rfl : entry = _ := Option.some.inj (known.symm.trans known')
    exact .base (earlier known notStruct) plain
  | array arrayed _ inductionHypothesis =>
    exact .array (earlier arrayed rfl) (inductionHypothesis known)

/-- Only samplers need more types than their struct. -/
theorem fieldsFor_tables {tables : Tables} {invariance : Invariance} {category : Category}
    (other : category ≠ .textures) {members : List VariableId} {fields : List Field}
    (made : tables.fieldsFor invariance category members = .ok (fields, after)) :
    after = tables := by
  induction members generalizing fields with
  | nil =>
    simp only [fieldsFor, Except.ok.injEq, Prod.mk.injEq] at made
    exact made.2.symm
  | cons id members inductionHypothesis =>
    simp only [fieldsFor, fieldFor, if_neg other, Outcome.bind_eq_ok_iff, Outcome.pure_eq_ok,
      Except.ok.injEq, Prod.mk.injEq] at made
    obtain ⟨_, ⟨entry, -, rfl⟩, _, rest, -, rfl⟩ := made
    exact inductionHypothesis rest

end Tables

namespace Gathering

/-- A test accepts a variable exactly if it succeeds and says so. -/
theorem accepts_iff {claims : VariableId → Result Bool} {id : VariableId} :
    accepts claims id = true ↔ claims id = .ok true := by
  constructor
  · intro accepted
    cases tested : claims id with
    | error failure => simp [accepts, tested, Except.toOption] at accepted
    | ok answer => rw [accepts_eq tested] at accepted; rw [accepted]
  · exact accepts_eq

end Gathering

/-- Every category but that of the samplers can be asked about a known variable. -/
theorem Category.exists_claims_of_known {category : Category} {tables : Tables} {entry : Variable}
    {id : VariableId} (known : tables.vars[id.index]? = some entry) (other : category ≠ .textures)
    (supplied : Option VariableId) : ∃ answer, category.claims tables supplied id = .ok answer := by
  have found : tables.variableAt id = .ok entry := by simpa using known
  cases category with
  | textures => exact absurd rfl other
  | instanceIndex | mutableGlobals | suppliedUniforms | userUniforms | vertexIn | vertexOut
  | fragmentIn | fragmentOut | vertexInvocation | fragmentInvocation =>
    exact ⟨_, by rw [claims, found]; rfl⟩

namespace LoweringStep

variable {shader result : Shader} {category other : Category} {supplied : Option VariableId}
  {gathering : Gathering}

/-- The index of the instance needs one new type, its struct. -/
theorem types_of_index
    (step : LoweringStep shader .instanceIndex (Category.suppliedTo .instanceIndex supplied)
      gathering result) : ∃ fields, result.program.tables.types =
        shader.program.tables.types.push
          (.struct (Category.structName .instanceIndex .internal) fields) := by
  obtain ⟨gather⟩ := Shader.gather_inv step.gathers
  obtain ⟨threads, -⟩ := Shader.thread_adds step.threads
  obtain ⟨_, _, pruned, -⟩ := Program.prune_inv step.prunes
  have made := gather.internalOk
  simp only [Category.suppliedTo, reduceCtorEq, if_false, Gathering.internalStruct,
    Gathering.createInternal, Tables.createStruct, Outcome.bind_eq_ok_iff, Outcome.pure_eq_ok,
    Except.ok.injEq, Prod.mk.injEq] at made
  obtain ⟨_, ⟨⟨fields, grown⟩, fieldsOk, _, ⟨-, -, rfl⟩, rfl⟩, -, -, same, -⟩ := made
  obtain rfl := Tables.fieldsFor_tables (by decide) fieldsOk
  have bridged := gather.bridgeOk
  simp only [Gathering.bridge?, Category.layoutRules, Except.ok.injEq, Prod.mk.injEq] at bridged
  refine ⟨fields, ?_⟩
  rw [pruned.tables]
  simp only [Tables.retire_types]
  rw [threads.sameTypes, ← bridged.2.1, ← same]
  rfl

/-- Lowering a category changes no claim on what is still declared, if samplers come second. -/
theorem accepts_eq (step : LoweringStep shader category (category.suppliedTo supplied) gathering result)
    (second : other = .textures → category = .instanceIndex) {id : VariableId}
    (declared : id ∈ result.program.globalVariables) (given : Option VariableId) :
    Gathering.accepts (other.claims result.program.tables given) id =
      Gathering.accepts (other.claims shader.program.tables given) id := by
  obtain ⟨before, refused⟩ := step.mem_globalVariables declared
  obtain ⟨entry, found, -⟩ := Outcome.bind_eq_ok_iff.mp refused
  have known := Tables.variableAt_eq_ok_iff.mp found
  rw [Bool.eq_iff_iff, Gathering.accepts_iff, Gathering.accepts_iff]
  refine ⟨fun later => ?_, Category.claims_evolves step.evolves⟩
  by_cases textures : other = .textures
  · obtain rfl := second textures
    subst textures
    obtain ⟨fields, types⟩ := step.types_of_index
    obtain ⟨gone, laterKnown⟩ := step.evolves.vars known
    have laterFound : result.program.tables.variableAt id = .ok (entry.retire gone) := by
      simpa using laterKnown
    simp only [Category.claims, laterFound, Outcome.ok_bind, Variable.retire_type] at later
    simp only [Category.claims, found, Outcome.ok_bind]
    refine Tables.isSampler_of_structs step.evolves (fun {index type} new there => ?_) later
    have bound := (Array.getElem?_eq_some_iff.mp there).1
    rw [types, Array.size_push] at bound
    obtain rfl : index = shader.program.tables.types.size := by omega
    obtain rfl : Ty.struct _ fields = type := by simpa [types] using there
    rfl
  · obtain ⟨answer, tested⟩ := Category.exists_claims_of_known known textures given
    rw [Category.claims_evolves step.evolves tested] at later
    rw [tested, later]

end LoweringStep

/-! ## The first category that claims a variable -/

/-- The first of the categories that claims a variable. -/
def Category.first (categories : List Category) (tables : Tables) (supplied : Option VariableId)
    (id : VariableId) : Option Category :=
  categories.find? fun category =>
    Gathering.accepts (category.claims tables (category.suppliedTo supplied)) id

namespace Category

variable {category : Category} {categories : List Category} {tables before after : Tables}
  {supplied : Option VariableId} {id : VariableId}

/-- A category that does not claim a variable is not the first one to. -/
theorem first_cons_of_refused
    (refused : category.claims tables (category.suppliedTo supplied) id = .ok false) :
    first (category :: categories) tables supplied id = first categories tables supplied id := by
  simp [first, Gathering.accepts_eq refused]

/-- The first claimant depends only on which categories accept the variable. -/
theorem first_congr
    (same : ∀ category ∈ categories,
      Gathering.accepts (category.claims after (category.suppliedTo supplied)) id =
        Gathering.accepts (category.claims before (category.suppliedTo supplied)) id) :
    first categories after supplied id = first categories before supplied id := by
  induction categories with
  | nil => rfl
  | cons category categories inductionHypothesis =>
    rw [List.forall_mem_cons] at same
    have rest := inductionHypothesis same.2
    simp only [first] at rest ⊢
    rw [List.find?_cons, List.find?_cons, same.1, rest]

/-- The head of the list gets what it claims, and nothing else. -/
theorem first_cons_eq_self (fresh : category ∉ categories) :
    first (category :: categories) tables supplied id = some category ↔
      Gathering.accepts (category.claims tables (category.suppliedTo supplied)) id = true := by
  cases accepted : Gathering.accepts (category.claims tables (category.suppliedTo supplied)) id with
  | true => simp [first, accepted]
  | false =>
    simp only [first, List.find?_cons, accepted, Bool.false_eq_true, iff_false]
    exact fun found => fresh (List.mem_of_find?_eq_some found)

/-- What the head of the list does not get it refuses. -/
theorem refused_of_first_ne {other : Category} (different : other ≠ category)
    (found : first (category :: categories) tables supplied id = some other)
    (tested : ∃ answer, category.claims tables (category.suppliedTo supplied) id = .ok answer) :
    category.claims tables (category.suppliedTo supplied) id = .ok false := by
  obtain ⟨answer, tested⟩ := tested
  cases answer with
  | false => exact tested
  | true =>
    simp only [first, List.find?_cons, Gathering.accepts_eq tested, Option.some.injEq] at found
    exact absurd found.symm different

end Category

/-! ## Runs -/

/-- A variable was pruned after an earlier category than the given one was lowered. -/
def Shader.PrunesBefore (shader : Shader) (supplied : Option VariableId)
    (categories : List Category) (category : Category) (id : VariableId) : Prop :=
  ∃ front earlier back structs before gathering next,
    categories = front ++ earlier :: back ∧ category ∈ back ∧
    Lowering.lowerCategories (fun _ => .ok ()) supplied front shader =
      (.ok (structs, before) : Result _) ∧
    ∃ step : LoweringStep before earlier (earlier.suppliedTo supplied) gathering next,
      id ∈ step.threaded.program.globalVariables ∧ id ∉ next.program.globalVariables

/-- What became of the variables of a category: `members` became the fields of its struct. -/
structure Classified (shader lowered : Shader) (supplied : Option VariableId)
    (categories : List Category) (category : Category) (pair : Scoped TypeId)
    (members : List VariableId) : Prop where
  /-- The members are variables that the category is the first to claim, in the order of their
  declaration. -/
  ordered : members.Sublist (shader.program.globalVariables.filter fun id =>
    Category.first categories shader.program.tables supplied id = some category)
  /-- Every interface variable that the category is the first to claim is a member. -/
  interface : ∀ id ∈ shader.program.globalVariables,
    Category.first categories shader.program.tables supplied id = some category →
    ∀ {entry : Variable}, shader.program.tables.vars[id.index]? = some entry →
      entry.isInterface = true → id ∈ members
  /-- Any other variable is missing only if it was pruned earlier. -/
  missing : ∀ id ∈ shader.program.globalVariables,
    Category.first categories shader.program.tables supplied id = some category →
    id ∉ members → shader.PrunesBefore supplied categories category id
  /-- Without members there are no structs. -/
  empty : members = [] → pair.isEmpty = true
  /-- With members there are both structs, and the fields of the internal one represent the
  members in order. -/
  full : members ≠ [] → pair.isFull = true ∧ ∃ struct fields, pair.internal = some struct ∧
    lowered.program.tables.types[struct.index]? =
      some (.struct (category.structName .internal) fields) ∧
    List.Forall₂ (fun id field => ∃ entry, shader.program.tables.vars[id.index]? = some entry ∧
      Tables.Represents category lowered.program.tables entry field) members fields

namespace Shader.PrunesBefore

variable {shader next : Shader} {supplied : Option VariableId} {categories : List Category}
  {category other : Category} {id : VariableId} {gathering : Gathering}

/-- What is pruned in the rest of a run is pruned in the run. -/
theorem passed
    (unclaimed : ∀ id ∈ shader.program.globalVariables,
      other.claims shader.program.tables (other.suppliedTo supplied) id = .ok false)
    (prunes : shader.PrunesBefore supplied categories category id) :
    shader.PrunesBefore supplied (other :: categories) category id := by
  obtain ⟨front, earlier, back, structs, before, gathering, next, rfl, later, lowers, step⟩ := prunes
  rw [Lowering.lowerCategories_eq_ok_iff] at lowers
  exact ⟨other :: front, earlier, back, _, before, gathering, next, rfl, later,
    Lowering.lowerCategories_eq_ok_iff.mpr (.passed unclaimed lowers), step⟩

/-- What is pruned after the first category has been lowered is pruned in the run. -/
theorem lowered (step : LoweringStep shader other (other.suppliedTo supplied) gathering next)
    (prunes : next.PrunesBefore supplied categories category id) :
    shader.PrunesBefore supplied (other :: categories) category id := by
  obtain ⟨front, earlier, back, structs, before, made, last, rfl, later, lowers, prunes⟩ := prunes
  rw [Lowering.lowerCategories_eq_ok_iff] at lowers
  exact ⟨other :: front, earlier, back, _, before, made, last, rfl, later,
    Lowering.lowerCategories_eq_ok_iff.mpr (.lowered step lowers), prunes⟩

end Shader.PrunesBefore

/-- A field takes the place of a variable, out of use or not. -/
theorem Tables.Represents.of_retire {category : Category} {tables : Tables} {entry : Variable}
    {gone : Bool} {field : Field} (represents : Represents category tables (entry.retire gone) field) :
    Represents category tables entry field := by
  simpa [Represents] using represents

namespace Classified

variable {shader next result : Shader} {supplied : Option VariableId} {categories : List Category}
  {category other : Category} {pair : Scoped TypeId} {members : List VariableId}
  {gathering : Gathering}

/-- A category that is passed over changes nothing for the others. -/
theorem passed
    (unclaimed : ∀ id ∈ shader.program.globalVariables,
      other.claims shader.program.tables (other.suppliedTo supplied) id = .ok false)
    (classified : Classified shader result supplied categories category pair members) :
    Classified shader result supplied (other :: categories) category pair members := by
  have same {id : VariableId} (declared : id ∈ shader.program.globalVariables) :
      Category.first (other :: categories) shader.program.tables supplied id =
        Category.first categories shader.program.tables supplied id :=
    Category.first_cons_of_refused (unclaimed id declared)
  refine ⟨?_, fun id declared found => ?_, fun id declared found absent => ?_, classified.empty,
    classified.full⟩
  · rw [List.filter_congr fun id declared => by rw [same declared]]
    exact classified.ordered
  · exact classified.interface id declared (same declared ▸ found)
  · exact (classified.missing id declared (same declared ▸ found) absent).passed unclaimed

/-- Nor does a category that is lowered, but for what is pruned after it. -/
theorem lowered (step : LoweringStep shader other (other.suppliedTo supplied) gathering next)
    (second : ∀ later ∈ categories, later = .textures → other = .instanceIndex)
    (different : category ≠ other) (later : category ∈ categories)
    (classified : Classified next result supplied categories category pair members) :
    Classified shader result supplied (other :: categories) category pair members := by
  obtain ⟨gather⟩ := Shader.gather_inv step.gathers
  obtain ⟨threads, sameDeclared⟩ := Shader.thread_adds step.threads
  obtain ⟨marks, left, interfaceMarked⟩ := step.globalVariables
  have same {id : VariableId} (declared : id ∈ next.program.globalVariables) :
      Category.first (other :: categories) shader.program.tables supplied id =
        Category.first categories next.program.tables supplied id := by
    rw [Category.first_cons_of_refused (step.mem_globalVariables declared).2]
    exact (Category.first_congr fun later member =>
      step.accepts_eq (second later member) declared _).symm
  have refused {id : VariableId} (declared : id ∈ shader.program.globalVariables)
      (found : Category.first (other :: categories) shader.program.tables supplied id =
        some category) :=
    Category.refused_of_first_ne different found (gather.tested id declared)
  have members_declared : members ⊆ next.program.globalVariables := fun id member =>
    (List.mem_filter.mp (classified.ordered.subset member)).1
  refine ⟨?_, fun id declared found entry known isInterface => ?_,
    fun id declared found absent => ?_, classified.empty, fun filled => ?_⟩
  · have ordered := classified.ordered
    rw [List.filter_congr fun id declared => by rw [← same declared]] at ordered
    refine ordered.trans (List.Sublist.filter _ ?_)
    rw [left]
    exact List.filter_sublist.trans List.filter_sublist
  · have marked := interfaceMarked id declared known isInterface (refused declared found)
    have still : id ∈ next.program.globalVariables := by
      rw [left, List.mem_filter, List.mem_filter, Gathering.accepts_eq (refused declared found)]
      exact ⟨⟨declared, rfl⟩, List.contains_iff_mem.mpr marked⟩
    obtain ⟨gone, nextKnown⟩ := step.evolves.vars known
    exact classified.interface id still (same still ▸ found) nextKnown
      (by rw [Variable.retire_isInterface, isInterface])
  · by_cases still : id ∈ next.program.globalVariables
    · exact (classified.missing id still (same still ▸ found) absent).lowered step
    · refine ⟨[], other, categories, _, shader, gathering, next, rfl, later, rfl, step, ?_, still⟩
      rw [sameDeclared, gather.globalVariables_eq, List.mem_filter,
        Gathering.accepts_eq (refused declared found)]
      exact ⟨declared, rfl⟩
  · obtain ⟨isFull, struct, fields, internal, known, each⟩ := classified.full filled
    refine ⟨isFull, struct, fields, internal, known,
      Outcome.forall₂_imp_mem each fun id member field represented => ?_⟩
    obtain ⟨entry, found, -⟩ := Outcome.bind_eq_ok_iff.mp
      (step.mem_globalVariables (members_declared member)).2
    have entryKnown := Tables.variableAt_eq_ok_iff.mp found
    obtain ⟨gone, later⟩ := step.evolves.vars entryKnown
    obtain ⟨_, laterKnown, represents⟩ := represented
    obtain rfl := Option.some.inj (later.symm.trans laterKnown)
    exact ⟨entry, entryKnown, represents.of_retire⟩

end Classified

/-- A category that is lowered gets all variables that it claims. -/
theorem LoweringStep.classified {shader next lowered : Shader} {supplied : Option VariableId}
    {category : Category} {categories : List Category} {gathering : Gathering}
    (step : LoweringStep shader category (category.suppliedTo supplied) gathering next)
    (unsupplied : category.suppliedTo supplied = none) (fresh : category ∉ categories)
    (evolves : next.program.tables.Evolves lowered.program.tables) :
    Classified shader lowered supplied (category :: categories) category gathering.structs
      gathering.members := by
  obtain ⟨gather⟩ := Shader.gather_inv step.gathers
  obtain ⟨threads, -⟩ := Shader.thread_adds step.threads
  obtain ⟨_, _, pruned, -⟩ := Program.prune_inv step.prunes
  have all : shader.program.globalVariables.filter (fun id =>
      Category.first (category :: categories) shader.program.tables supplied id = some category) =
        gathering.members := by
    rw [gather.members]
    exact List.filter_congr fun id _ => by
      rw [Bool.eq_iff_iff, decide_eq_true_eq, Category.first_cons_eq_self fresh]
  have member {id : VariableId} (declared : id ∈ shader.program.globalVariables)
      (found : Category.first (category :: categories) shader.program.tables supplied id =
        some category) : id ∈ gathering.members := by
    rw [← all, List.mem_filter, decide_eq_true_eq]
    exact ⟨declared, found⟩
  refine ⟨all ▸ List.Sublist.refl _, fun id declared found _ _ _ => member declared found,
    fun id declared found absent => absurd (member declared found) absent,
    fun none => absurd none gather.filled, fun _ => ⟨rfl, gathering.internal, ?_⟩⟩
  obtain ⟨fields, known, each⟩ := gather.represented unsupplied
  have later : step.gathered.program.tables.Evolves lowered.program.tables := by
    have pruning : step.threaded.program.tables.Evolves next.program.tables := by
      rw [pruned.tables]
      exact (Tables.retire_evolves _).trans (Tables.retire_evolves _)
    exact (threads.evolves.trans pruning).trans evolves
  refine ⟨fields, rfl, later.types known, each.imp fun id field => ?_⟩
  rintro ⟨entry, entryKnown, represents⟩
  exact ⟨entry, entryKnown, represents.evolves later⟩

namespace LoweringRun

variable {shader result : Shader} {supplied : Option VariableId} {categories : List Category}
  {structs : CategoryStructs}

/-- The structs are listed by category, in order. -/
theorem structs_categories (run : LoweringRun supplied categories shader structs result) :
    structs.map Prod.fst = categories := by
  induction run with
  | done => rfl
  | passed _ _ inductionHypothesis => simp [inductionHypothesis]
  | lowered _ _ inductionHypothesis => simp [inductionHypothesis]

/-- Every category of a run gets what it is the first to claim. -/
theorem classified (run : LoweringRun supplied categories shader structs result)
    (order : categories.Pairwise fun earlier later =>
      earlier ≠ later ∧ (later = .textures → earlier = .instanceIndex)) :
    ∀ entry ∈ structs, entry.1.suppliedTo supplied = none →
      ∃ members, Classified shader result supplied categories entry.1 entry.2 members := by
  induction run with
  | done => simp
  | @passed category categories shader result structs unclaimed rest inductionHypothesis =>
    rw [List.pairwise_cons] at order
    refine List.forall_mem_cons.mpr ⟨fun _ => ⟨[], ?_⟩, fun entry member unsupplied => ?_⟩
    · have fresh : category ∉ categories := fun member => (order.1 category member).1 rfl
      have none {id : VariableId} (declared : id ∈ shader.program.globalVariables) :
          Category.first (category :: categories) shader.program.tables supplied id ≠
            some category := by
        rw [Ne, Category.first_cons_eq_self fresh, Gathering.accepts_eq (unclaimed id declared)]
        exact Bool.false_ne_true
      exact ⟨List.nil_sublist _, fun id declared found => absurd found (none declared),
        fun id declared found => absurd found (none declared), fun _ => rfl,
        fun filled => absurd rfl filled⟩
    · obtain ⟨members, classified⟩ := inductionHypothesis order.2 entry member unsupplied
      exact ⟨members, classified.passed unclaimed⟩
  | @lowered category categories shader next result structs gathering step rest inductionHypothesis =>
    rw [List.pairwise_cons] at order
    have fresh : category ∉ categories := fun member => (order.1 category member).1 rfl
    refine List.forall_mem_cons.mpr ⟨fun unsupplied =>
      ⟨gathering.members, step.classified unsupplied fresh rest.evolves⟩,
      fun entry member unsupplied => ?_⟩
    obtain ⟨members, classified⟩ := inductionHypothesis order.2 entry member unsupplied
    have later : entry.1 ∈ categories := by
      rw [← rest.structs_categories]
      exact List.mem_map_of_mem member
    exact ⟨members, classified.lowered step (fun other member => (order.1 other member).2)
      (fun same => fresh (same ▸ later)) later⟩

end LoweringRun

/-- The category of a supplied instance claims it before the other uniforms do. -/
theorem Category.first_supplied {tables : Tables} {entry : Variable} {id : VariableId}
    (known : tables.vars[id.index]? = some entry) :
    first all tables (some id) id ≠ some .userUniforms := by
  intro found
  have claimed : Gathering.accepts (claims .suppliedUniforms tables
      (suppliedTo .suppliedUniforms (some id))) id = true := by
    have isKnown : tables.variableAt id = .ok entry := by simpa using known
    rw [Gathering.accepts_iff, claims, isKnown]
    simp [suppliedTo]
  have split : all = [instanceIndex, textures, mutableGlobals] ++ .suppliedUniforms ::
      [userUniforms, vertexIn, vertexOut, fragmentIn, fragmentOut, vertexInvocation,
        fragmentInvocation] := rfl
  rw [first, split, List.find?_append] at found
  cases front : [instanceIndex, textures, mutableGlobals].find? fun category =>
      Gathering.accepts (category.claims tables (category.suppliedTo (some id))) id with
  | none =>
    rw [front, Option.none_or, List.find?_cons, claimed] at found
    simp at found
  | some category =>
    have member := List.mem_of_find?_eq_some front
    rw [front, Option.some_or, Option.some.injEq] at found
    simp [found] at member

/-- Every category without a supplied instance gets the variables that it is the first to claim,
less those that were pruned before. Every interface variable is kept, with all that is known about
it, and a supplied instance is not among the other uniforms. Texture environments are made as they
should be. -/
theorem Shader.lower_classifies {shader lowered : Shader} {supplied : Option VariableId}
    {structs : CategoryStructs} (lowers : shader.lower supplied = .ok (structs, lowered)) :
    structs.map Prod.fst = Category.all ∧
    (∀ entry ∈ structs, entry.1.suppliedTo supplied = none → ∃ members,
      Classified shader lowered supplied Category.all entry.1 entry.2 members ∧
        (entry.1 = .userUniforms → ∀ id ∈ supplied, id ∉ members)) ∧
    ((∀ kind id, (kind, id) ∈ shader.program.tables.textureEnvs →
        shader.program.tables.IsEnv kind id) →
      ∀ kind id, (kind, id) ∈ lowered.program.tables.textureEnvs →
        lowered.program.tables.IsEnv kind id) := by
  have run := Lowering.lowerCategories_inv lowers
  refine ⟨run.structs_categories, fun entry member unsupplied => ?_, fun envs kind id later => ?_⟩
  · obtain ⟨members, classified⟩ := run.classified (by decide) entry member unsupplied
    refine ⟨members, classified, fun isUser id isSupplied own => ?_⟩
    obtain rfl : supplied = some id := isSupplied
    obtain ⟨-, struct, fields, -, -, each⟩ := classified.full (List.ne_nil_of_mem own)
    obtain ⟨_, -, _, known, -⟩ := Outcome.forall₂_exists_right each own
    have found := (List.mem_filter.mp (classified.ordered.subset own)).2
    rw [decide_eq_true_eq, isUser] at found
    exact Category.first_supplied known found
  · rcases run.evolves.newEnvs later with old | isEnv
    · exact run.evolves.isEnv (envs kind id old)
    · exact isEnv

/-- The position that `Shader.instancing` writes is a field of its outputs. -/
theorem Shader.lower_classifies_instancing : ∃ structs lowered pair members,
    instancing.lower none = .ok (structs, lowered) ∧ (.vertexOut, pair) ∈ structs ∧
      Classified instancing lowered none Category.all .vertexOut pair members ∧
        ⟨1⟩ ∈ members := by
  obtain ⟨⟨structs, lowered⟩, lowers, -⟩ := Outcome.exists_ok_of_any
    (by decide +kernel : ((instancing.lower none).toOption.any fun _ => true) = true)
  obtain ⟨categories, each, -⟩ := lower_classifies lowers
  have isCategory : Category.vertexOut ∈ structs.map Prod.fst := categories ▸ Category.mem_all _
  obtain ⟨⟨_, pair⟩, member, rfl⟩ := List.mem_map.mp isCategory
  obtain ⟨members, classified, -⟩ := each _ member rfl
  have first : Category.first Category.all instancing.program.tables none ⟨1⟩ =
      some .vertexOut := by decide +kernel
  exact ⟨structs, lowered, pair, members, lowers, member, classified,
    classified.interface ⟨1⟩ (by decide) first rfl rfl⟩

end ShaderPipeline
