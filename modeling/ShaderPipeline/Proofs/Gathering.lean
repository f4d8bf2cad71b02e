import ShaderPipeline.Proofs.Layout
import ShaderPipeline.Proofs.Program

/-!
# Gathering a category

What gathering takes out of the declarations and what it creates. `GatherRun`
keeps the steps of one run; each step has a lemma that says when it succeeds and
what it gives.
-/

namespace ShaderPipeline

namespace Gathering

variable {claims : VariableId → Result Bool} {globals kept : List Global}
  {taken members : List VariableId}

/-- Whether a test accepts a variable. -/
def accepts (claims : VariableId → Result Bool) (id : VariableId) : Bool :=
  (claims id).toOption.getD false

/-- Whether a declaration is left where it is. -/
def stays (claims : VariableId → Result Bool) : Global → Bool
  | .var id => !accepts claims id
  | _ => true

/-- A test that succeeds accepts a variable as it says. -/
theorem accepts_eq {id : VariableId} {answer : Bool} (tested : claims id = .ok answer) :
    accepts claims id = answer := by
  simp [accepts, tested, Except.toOption]

/-- The variables that are declared globally. -/
def declaredIn (globals : List Global) : List VariableId := globals.filterMap Global.declared?

@[simp] theorem declaredIn_nil : declaredIn [] = [] := rfl

@[simp] theorem declaredIn_var (id : VariableId) (rest : List Global) :
    declaredIn (.var id :: rest) = id :: declaredIn rest := rfl

@[simp] theorem declaredIn_struct (type : TypeId) (rest : List Global) :
    declaredIn (.struct type :: rest) = declaredIn rest := rfl

@[simp] theorem declaredIn_prototype (function : FunctionId) (rest : List Global) :
    declaredIn (.prototype function :: rest) = declaredIn rest := rfl

@[simp] theorem declaredIn_definition (function : FunctionId) (body : Block) (rest : List Global) :
    declaredIn (.definition function body :: rest) = declaredIn rest := rfl

/-- The declared variables are those with a declaration. -/
theorem mem_declaredIn {id : VariableId} : id ∈ declaredIn globals ↔ .var id ∈ globals := by
  simp only [declaredIn, List.mem_filterMap]
  constructor
  · rintro ⟨global, member, same⟩
    cases global <;> simp_all [Global.declared?]
  · intro member
    exact ⟨_, member, rfl⟩

/-- What was taken are the accepted variables, in order, and the rest stays. -/
theorem take_inv (takes : take claims globals taken = .ok (members, kept)) :
    (∀ id ∈ declaredIn globals, ∃ answer, claims id = .ok answer) ∧
      members = taken ++ (declaredIn globals).filter (accepts claims) ∧
      kept = globals.filter (stays claims) := by
  induction globals generalizing taken members kept with
  | nil =>
    simp only [take, Except.ok.injEq, Prod.mk.injEq] at takes
    obtain ⟨rfl, rfl⟩ := takes
    simp
  | cons global rest inductionHypothesis =>
    cases global with
    | var id =>
      simp only [take, Outcome.bind_eq_ok_iff] at takes
      obtain ⟨answer, tested, takes⟩ := takes
      have here := accepts_eq tested
      rw [declaredIn_var, List.forall_mem_cons, List.filter_cons, List.filter_cons]
      cases answer with
      | true =>
        simp only [if_true, Outcome.bind_eq_ok_iff] at takes
        obtain ⟨_, -, takes⟩ := takes
        obtain ⟨allTested, sameMembers, sameKept⟩ := inductionHypothesis takes
        refine ⟨⟨⟨true, tested⟩, allTested⟩, ?_, ?_⟩
        · simp [sameMembers, here]
        · simp [sameKept, stays, here]
      | false =>
        simp only [Bool.false_eq_true, if_false, Outcome.bind_eq_ok_iff] at takes
        obtain ⟨⟨restMembers, restKept⟩, takes, same⟩ := takes
        obtain ⟨allTested, sameMembers, sameKept⟩ := inductionHypothesis takes
        simp only [Outcome.pure_eq_ok, Except.ok.injEq, Prod.mk.injEq] at same
        refine ⟨⟨⟨false, tested⟩, allTested⟩, ?_, ?_⟩
        · simp [← same.1, sameMembers, here]
        · simp [← same.2, sameKept, stays, here]
    | struct | prototype | definition =>
      simp only [take, Outcome.bind_eq_ok_iff] at takes
      obtain ⟨⟨restMembers, restKept⟩, takes, same⟩ := takes
      obtain ⟨allTested, sameMembers, sameKept⟩ := inductionHypothesis takes
      simp only [Outcome.pure_eq_ok, Except.ok.injEq, Prod.mk.injEq] at same
      obtain ⟨rfl, rfl⟩ := same
      exact ⟨allTested, sameMembers, by rw [sameKept]; rfl⟩

/-- Variables that can all be tested and are declared once can be taken. -/
theorem take_ok (tested : ∀ id ∈ declaredIn globals, ∃ answer, claims id = .ok answer)
    (once : (taken ++ declaredIn globals).Nodup) :
    take claims globals taken =
      .ok (taken ++ (declaredIn globals).filter (accepts claims),
        globals.filter (stays claims)) := by
  induction globals generalizing taken with
  | nil => simp [take]
  | cons global rest inductionHypothesis =>
    cases global with
    | var id =>
      rw [declaredIn_var, List.forall_mem_cons] at tested
      obtain ⟨⟨answer, here⟩, tested⟩ := tested
      rw [declaredIn_var] at once ⊢
      cases answer with
      | true =>
        have others := @inductionHypothesis (taken ++ [id]) tested (by simpa using once)
        have fresh : ensure (!taken.contains id) = .ok () := by
          have apart := (List.nodup_append.mp once).2.2
          simp only [ensure_eq_ok_iff, Bool.not_eq_true', List.contains_eq_mem,
            decide_eq_false_iff_not]
          exact fun member => apart id member id (by simp) rfl
        simp only [take, here, fresh, others, Outcome.ok_bind, if_true]
        simp [accepts_eq here, stays]
      | false =>
        have fewer : (taken ++ declaredIn rest).Sublist (taken ++ id :: declaredIn rest) :=
          (List.Sublist.refl taken).append (List.sublist_cons_self id _)
        have others := inductionHypothesis tested (once.sublist fewer)
        simp only [take, here, others, Outcome.ok_bind, Outcome.pure_eq_ok, Bool.false_eq_true,
          if_false]
        simp [accepts_eq here, stays]
    | struct | prototype | definition =>
      have others := inductionHypothesis tested once
      simp only [take, others, Outcome.ok_bind, Outcome.pure_eq_ok]
      rfl

end Gathering

/-! ## The struct of a category -/

namespace Tables

variable {tables before middle after : Tables} {sizes : Nat → Prop}

/-- A sampler, or a flat array of samplers, of the given extents and kind. -/
def IsSampler (tables : Tables) (type : TypeId) (extents : List Nat) (kind : ImageKind) : Prop :=
  extents.length ≤ 1 ∧ ∃ base, tables.HasShape type extents base ∧
    tables.types[base.index]? = some (.image kind)

/-- The texture environments that stand for a sampler or for an array of samplers. -/
def StandsFor (before after : Tables) (type env : TypeId) : Prop :=
  ∃ extents kind base, before.IsSampler type extents kind ∧ after.IsEnv kind base ∧
    after.HasShape env extents base

/-- Only samplers and flat arrays of them have texture environments. -/
theorem samplerEnv_inv {type env : TypeId} (made : tables.samplerEnv type = .ok (env, after)) :
    ∃ extents kind, tables.IsSampler type extents kind := by
  simp only [samplerEnv, Outcome.bind_eq_ok_iff] at made
  obtain ⟨⟨⟩, flat, base, baseOk, made⟩ := made
  cases base with
  | image kind =>
    obtain ⟨shape, known⟩ := hasShape_of_baseOf baseOk
    have short : (tables.shapeOf type).extents.length ≤ 1 := by simpa using flat
    exact ⟨_, kind, short, _, shape, known⟩
  | scalar | vector | matrix | texture | sampler | struct | array | pointer | eliminated =>
    simp at made

/-- The texture environments of a sampler. -/
theorem samplerEnv_run (sound : tables.Sound) {type : TypeId} {extents : List Nat}
    {kind : ImageKind} (isSampler : tables.IsSampler type extents kind)
    (sized : ∀ extent ∈ extents, sizes extent) :
    ∃ env after, tables.samplerEnv type = .ok (env, after) ∧ tables.StandsFor after type env ∧
      Grows sizes tables after ∧ after.Sound := by
  obtain ⟨short, base, shape, known⟩ := isSampler
  have inside := index_lt_of_getElem? known
  have deep : extents.length ≤ tables.types.size := by omega
  obtain ⟨envBase, middle, envOk, isEnv, toMiddle, middleSound⟩ := sound.textureEnv_run sizes kind
  obtain ⟨texture, texturePointer, samplerPointer, struct, -⟩ := id isEnv
  obtain ⟨env, after, arrayOk, envShape, toAfter, sameEnvs⟩ :=
    arrayOver_run struct rfl sized
  have flat : ensure (decide (extents.length ≤ 1)) = .ok () := by simpa using short
  have shapeIs := shape.shapeOf_eq deep
  have baseIs := shape.baseOf_eq known deep
  rw [shapeIs] at baseIs
  refine ⟨env, after, ?_, ⟨extents, kind, envBase, ⟨short, base, shape, known⟩,
    toAfter.toExtends.isEnv isEnv, envShape⟩, toMiddle.trans toAfter,
    toAfter.sound middleSound fun member => .inl (sameEnvs ▸ member)⟩
  simp [samplerEnv, shapeIs, flat, baseIs, envOk, arrayOk]

/-- The field that takes the place of a variable, as the tables are once all fields are made. -/
def FieldFor (category : Category) (before after : Tables) (entry : Variable) (field : Field) :
    Prop :=
  if category = .textures then
    ∃ env, field = ⟨entry.name, env, .notApplicable, entry.decorations, none⟩ ∧
      before.StandsFor after entry.type env
  else
    field = ⟨entry.name, entry.type, entry.precision, entry.decorations, entry.builtIn⟩

/-- The variable can become a field. -/
def CanBeField (category : Category) (tables : Tables) (invariance : Invariance)
    (sizes : Nat → Prop) (id : VariableId) : Prop :=
  ∃ entry, tables.vars[id.index]? = some entry ∧
    (category = .textures → invariance.hasVariable id = false ∧
      ∃ extents kind, tables.IsSampler entry.type extents kind ∧ ∀ extent ∈ extents, sizes extent)

/-- A sampler stays one while the tables grow. -/
theorem IsSampler.extends {type : TypeId} {extents : List Nat} {kind : ImageKind}
    (isSampler : before.IsSampler type extents kind) (extended : before.Extends after) :
    after.IsSampler type extents kind := by
  obtain ⟨short, base, shape, known⟩ := isSampler
  exact ⟨short, base, shape.extends extended, extended.types known⟩

/-- A variable that can become a field does so, and at most types are made for it. -/
theorem fieldFor_run (sound : tables.Sound) {invariance : Invariance} {category : Category}
    {id : VariableId} (can : CanBeField category tables invariance sizes id) :
    ∃ entry field after, tables.vars[id.index]? = some entry ∧
      tables.fieldFor invariance category id = .ok (field, after) ∧
      FieldFor category tables after entry field ∧ Grows sizes tables after ∧ after.Sound := by
  obtain ⟨entry, known, sampler⟩ := can
  have found : tables.variableAt id = .ok entry := by simpa using known
  by_cases textures : category = .textures
  · obtain ⟨free, extents, kind, isSampler, sized⟩ := sampler textures
    obtain ⟨env, after, envOk, stands, grows, afterSound⟩ := samplerEnv_run sound isSampler sized
    refine ⟨entry, ⟨entry.name, env, .notApplicable, entry.decorations, none⟩, after, known, ?_, ?_,
      grows, afterSound⟩
    · simp [fieldFor, found, textures, free, ensure, envOk]
    · simpa [FieldFor, textures] using stands
  · exact ⟨entry, _, tables, known,
      by simp only [fieldFor, found, Outcome.ok_bind, if_neg textures]; rfl,
      by simp [FieldFor, textures], .refl sizes tables, sound⟩

/-- A field stands for a variable between tables before and after, if it does in between. -/
theorem FieldFor.widen {last : Tables} {category : Category} {entry : Variable} {field : Field}
    (isField : FieldFor category middle last entry field)
    (sampler : ∀ {extents : List Nat} {kind : ImageKind}, middle.IsSampler entry.type extents kind →
      before.IsSampler entry.type extents kind) (extended : last.Extends after) :
    FieldFor category before after entry field := by
  unfold FieldFor at isField ⊢
  split
  case isTrue textures =>
    rw [if_pos textures] at isField
    obtain ⟨env, same, extents, kind, base, isSampler, isEnv, shape⟩ := isField
    exact ⟨env, same, extents, kind, base, sampler isSampler, extended.isEnv isEnv,
      shape.extends extended⟩
  case isFalse other => rwa [if_neg other] at isField

/-- The parts of every type, and the type of every variable, are known. -/
structure Closed (tables : Tables) : Prop where
  parts : ∀ {index : Nat} {type : Ty}, tables.types[index]? = some type →
    ∀ part ∈ type.parts, part.index < tables.types.size
  vars : ∀ {index : Nat} {entry : Variable}, tables.vars[index]? = some entry →
    entry.type.index < tables.types.size

/-- Closedness is a condition on each type and each variable, so it can be tested. -/
theorem closed_iff {tables : Tables} : tables.Closed ↔
    (∀ type ∈ tables.types, ∀ part ∈ type.parts, part.index < tables.types.size) ∧
      ∀ entry ∈ tables.vars, entry.type.index < tables.types.size := by
  constructor
  · intro closed
    refine ⟨fun type member => ?_, fun entry member => ?_⟩
    · obtain ⟨index, known⟩ := Array.mem_iff_getElem?.mp member
      exact closed.parts known
    · obtain ⟨index, known⟩ := Array.mem_iff_getElem?.mp member
      exact closed.vars known
  · rintro ⟨parts, vars⟩
    exact ⟨fun known => parts _ (Array.mem_of_getElem? known),
      fun known => vars _ (Array.mem_of_getElem? known)⟩

instance (tables : Tables) : Decidable tables.Closed := decidable_of_iff _ closed_iff.symm

/-- Types that are made of earlier ones are made of known ones. -/
theorem closed_of_acyclic {tables : Tables} (acyclic : tables.Acyclic)
    (vars : ∀ entry ∈ tables.vars, entry.type.index < tables.types.size) : tables.Closed where
  parts there part member := Nat.lt_trans (acyclic there part member)
    (Array.getElem?_eq_some_iff.mp there).1
  vars there := vars _ (Array.mem_of_getElem? there)

/-- What an old type is made of was there before. -/
theorem Closed.hasShape (closed : before.Closed) (extended : before.Extends after) {id base : TypeId}
    {extents : List Nat} (shape : after.HasShape id extents base)
    (old : id.index < before.types.size) : before.HasShape id extents base := by
  have lookup {id : TypeId} {type : Ty} (old : id.index < before.types.size)
      (known : after.types[id.index]? = some type) : before.types[id.index]? = some type := by
    have there := Array.getElem?_eq_getElem old
    rw [extended.types there] at known
    rw [there, known]
  induction shape with
  | base known plain => exact .base (lookup old known) plain
  | array known _ inductionHypothesis =>
    have before := lookup old known
    exact .array before (inductionHypothesis (closed.parts before _ (by simp [Ty.parts])))

/-- A type that was there is a sampler only if it was one. -/
theorem Closed.isSampler (closed : before.Closed) (extended : before.Extends after) {type : TypeId}
    {extents : List Nat} {kind : ImageKind} (isSampler : after.IsSampler type extents kind)
    (old : type.index < before.types.size) : before.IsSampler type extents kind := by
  obtain ⟨short, base, shape, known⟩ := isSampler
  have shapeBefore := closed.hasShape extended shape old
  obtain ⟨other, otherKnown, -⟩ := shapeBefore.base_known
  have same : other = .image kind := by simpa [extended.types otherKnown] using known
  exact ⟨short, base, shapeBefore, same ▸ otherKnown⟩

/-- Whether an old type is a sampler does not change. -/
theorem Closed.isSampler_ok (closed : before.Closed) (extended : before.Extends after)
    {type : TypeId} {answer : Bool} (tested : after.isSampler type = .ok answer)
    (old : type.index < before.types.size) : before.isSampler type = .ok answer := by
  obtain ⟨extents, base, entry, shape, known, isAnswer⟩ := isSampler_eq_ok_iff.mp tested
  have shapeBefore := closed.hasShape extended shape old
  obtain ⟨other, otherKnown, -⟩ := shapeBefore.base_known
  obtain rfl := Option.some.inj ((extended.types otherKnown).symm.trans known)
  exact isSampler_eq_ok_iff.mpr ⟨extents, base, other, shapeBefore, otherKnown, isAnswer⟩

/-- Variables that can become fields become fields, in order. -/
theorem fieldsFor_run (sound : tables.Sound) (closed : tables.Closed) {invariance : Invariance}
    {category : Category} {members : List VariableId}
    (can : ∀ id ∈ members, CanBeField category tables invariance sizes id) :
    ∃ fields after, tables.fieldsFor invariance category members = .ok (fields, after) ∧
      List.Forall₂ (fun id field => ∃ entry, tables.vars[id.index]? = some entry ∧
        FieldFor category tables after entry field) members fields ∧
      Grows sizes tables after ∧ after.Sound := by
  -- The fields are made in tables that have grown, where the variables are still the same.
  suffices general : ∀ now, Grows sizes tables now → now.Sound →
      ∃ fields after, now.fieldsFor invariance category members = .ok (fields, after) ∧
        List.Forall₂ (fun id field => ∃ entry, tables.vars[id.index]? = some entry ∧
          FieldFor category tables after entry field) members fields ∧
        Grows sizes now after ∧ after.Sound by
    exact general tables (.refl sizes tables) sound
  induction members with
  | nil => exact fun now _ nowSound => ⟨[], now, rfl, .nil, .refl sizes now, nowSound⟩
  | cons id members inductionHypothesis =>
    intro now grown nowSound
    rw [List.forall_mem_cons] at can
    obtain ⟨entry, known, sampler⟩ := can.1
    have canNow : CanBeField category now invariance sizes id := by
      refine ⟨entry, grown.vars known, fun textures => ?_⟩
      obtain ⟨free, extents, kind, isSampler, sized⟩ := sampler textures
      exact ⟨free, extents, kind, isSampler.extends grown.toExtends, sized⟩
    obtain ⟨same, field, middle, sameKnown, fieldOk, isField, toMiddle, middleSound⟩ :=
      fieldFor_run nowSound canNow
    obtain rfl : entry = same := by simpa [grown.vars known] using sameKnown
    obtain ⟨fields, after, fieldsOk, areFields, toAfter, afterSound⟩ :=
      inductionHypothesis can.2 middle (grown.trans toMiddle) middleSound
    refine ⟨field :: fields, after, by simp [fieldsFor, fieldOk, fieldsOk],
      .cons ⟨entry, known, ?_⟩ areFields, toMiddle.trans toAfter, afterSound⟩
    exact isField.widen (fun isSampler => closed.isSampler grown.toExtends isSampler
      (closed.vars known)) toAfter.toExtends

/-- A variable that became a field could. -/
theorem fieldFor_inv {invariance : Invariance} {category : Category} {id : VariableId}
    {field : Field} (made : tables.fieldFor invariance category id = .ok (field, after)) :
    CanBeField category tables invariance (fun _ => True) id := by
  simp only [fieldFor, Outcome.bind_eq_ok_iff, variableAt_eq_ok_iff] at made
  obtain ⟨entry, known, made⟩ := made
  refine ⟨entry, known, fun textures => ?_⟩
  simp only [if_pos textures, Outcome.bind_eq_ok_iff] at made
  obtain ⟨⟨⟩, free, ⟨env, grown⟩, envOk, -⟩ := made
  obtain ⟨extents, kind, isSampler⟩ := samplerEnv_inv envOk
  exact ⟨by simpa using ensure_eq_ok_iff.mp free, extents, kind, isSampler, fun _ _ => trivial⟩

/-- Only variables that can become fields do. -/
theorem fieldsFor_inv (sound : tables.Sound) (closed : tables.Closed) {invariance : Invariance}
    {category : Category} {members : List VariableId} {fields : List Field}
    (made : tables.fieldsFor invariance category members = .ok (fields, after)) :
    ∀ id ∈ members, CanBeField category tables invariance (fun _ => True) id := by
  suffices general : ∀ now fields, Grows (fun _ => True) tables now → now.Sound →
      now.fieldsFor invariance category members = .ok (fields, after) →
        ∀ id ∈ members, CanBeField category tables invariance (fun _ => True) id by
    exact general tables fields (.refl _ tables) sound made
  clear made
  induction members with
  | nil => simp
  | cons id members inductionHypothesis =>
    intro now fields grown nowSound made
    simp only [fieldsFor, Outcome.bind_eq_ok_iff] at made
    obtain ⟨⟨field, middle⟩, fieldOk, ⟨others, final⟩, othersOk, same⟩ := made
    simp only [Outcome.pure_eq_ok, Except.ok.injEq, Prod.mk.injEq] at same
    obtain ⟨-, rfl⟩ := same
    have canNow := fieldFor_inv fieldOk
    obtain ⟨entry, other, next, known, nextOk, -, toMiddle, middleSound⟩ :=
      fieldFor_run nowSound canNow
    obtain ⟨rfl, rfl⟩ : other = field ∧ next = middle := by simpa [fieldOk] using nextOk.symm
    rw [List.forall_mem_cons]
    refine ⟨?_, inductionHypothesis _ _ (grown.trans toMiddle) middleSound othersOk⟩
    obtain ⟨entry, known, sampler⟩ := canNow
    have knownBefore : tables.vars[id.index]? = some entry := grown.sameVars ▸ known
    refine ⟨entry, knownBefore, fun textures => ?_⟩
    obtain ⟨free, extents, kind, isSampler, sized⟩ := sampler textures
    exact ⟨free, extents, kind,
      closed.isSampler grown.toExtends isSampler (closed.vars knownBefore), sized⟩

/-- The type of a new field is known. -/
theorem FieldFor.type_lt {category : Category} {entry : Variable} {field : Field}
    (isField : FieldFor category before after entry field)
    (known : entry.type.index < after.types.size) : field.type.index < after.types.size := by
  unfold FieldFor at isField
  split at isField
  · obtain ⟨env, rfl, extents, kind, base, -, -, shape⟩ := isField
    exact shape.index_lt
  · rw [isField]
    exact known

end Tables

namespace Gathering

variable {tables middle after : Tables} {sizes : Nat → Prop} {category : Category}
  {supplied : Option VariableId} {members : List VariableId} {invariance : Invariance}

/-- The struct that a category works with: the one that was supplied, or a new one with a field for
every variable. -/
inductive Internal (tables : Tables) (category : Category) (members : List VariableId) :
    Option VariableId → TypeId → List Global → Tables → Prop where
  | supplied {id : VariableId} {entry : Variable} {name : Name} {fields : List Field}
      (known : tables.vars[id.index]? = some entry)
      (struct : tables.types[entry.type.index]? = some (.struct name fields)) :
      Internal tables category members (some id) entry.type [] tables
  | created {fields : List Field} {struct : TypeId} {after : Tables}
      (isFields : List.Forall₂ (fun id field => ∃ entry, tables.vars[id.index]? = some entry ∧
        Tables.FieldFor category tables after entry field) members fields)
      (new : tables.types.size ≤ struct.index)
      (known : after.types[struct.index]? = some (.struct (category.structName .internal) fields)) :
      Internal tables category members none struct [.struct struct] after

/-- The struct that a category works with is known. -/
theorem Internal.known {struct : TypeId} {declared : List Global}
    (internal : Internal tables category members supplied struct declared after) :
    ∃ name fields, after.types[struct.index]? = some (.struct name fields) := by
  cases internal with
  | supplied _ struct => exact ⟨_, _, struct⟩
  | created _ _ struct => exact ⟨_, _, struct⟩

/-- A struct that was not supplied has a field for every variable. -/
theorem Internal.isFields {struct : TypeId} {declared : List Global}
    (internal : Internal tables category members none struct declared after) :
    ∃ fields, after.types[struct.index]? =
        some (.struct (category.structName .internal) fields) ∧
      List.Forall₂ (fun id field => ∃ entry, tables.vars[id.index]? = some entry ∧
        Tables.FieldFor category tables after entry field) members fields := by
  cases internal with
  | created isFields _ known => exact ⟨_, known, isFields⟩

/-- A supplied struct is the type of its instance. -/
theorem Internal.ofSupplied {id : VariableId} {struct : TypeId} {declared : List Global}
    (internal : Internal tables category members (some id) struct declared after) :
    ∃ entry name fields, tables.vars[id.index]? = some entry ∧ struct = entry.type ∧
      tables.types[entry.type.index]? = some (.struct name fields) := by
  cases internal with
  | supplied known struct => exact ⟨_, _, _, known, rfl, struct⟩

/-- A struct that was not supplied is new. -/
theorem Internal.new {struct : TypeId} {declared : List Global}
    (internal : Internal tables category members none struct declared after) :
    tables.types.size ≤ struct.index := by
  cases internal with
  | created _ new => exact new

/-- What is declared for a category is its struct, which is new then. -/
theorem Internal.declared_new {struct : TypeId} {declared : List Global}
    (internal : Internal tables category members supplied struct declared after) :
    ∀ global ∈ declared, global = .struct struct ∧ tables.types.size ≤ struct.index := by
  cases internal with
  | supplied => simp
  | created _ new => simpa using new

/-- What a category needs to get its struct. -/
def CanGather (tables : Tables) (invariance : Invariance) (category : Category)
    (supplied : Option VariableId) (members : List VariableId) (sizes : Nat → Prop) : Prop :=
  match supplied with
  | some id => ∃ entry name fields, tables.vars[id.index]? = some entry ∧
      tables.types[entry.type.index]? = some (.struct name fields)
  | none => members ≠ [] ∧ ∀ id ∈ members,
      Tables.CanBeField category tables invariance sizes id

/-- The struct of a category can be made. -/
theorem internalStruct_run (sound : tables.Sound) (closed : tables.Closed)
    (can : CanGather tables invariance category supplied members sizes) :
    ∃ struct declared after registry,
      internalStruct tables invariance category supplied members =
        .ok (struct, declared, after, registry) ∧
      Internal tables category members supplied struct declared after ∧
      Tables.Grows sizes tables after ∧ after.Sound := by
  cases supplied with
  | some id =>
    obtain ⟨entry, name, fields, known, struct⟩ := can
    have entryOk : tables.variableAt id = .ok entry := by simpa using known
    have structOk : tables.typeAt entry.type = .ok (.struct name fields) := by simpa using struct
    exact ⟨_, _, _, _, by simp only [internalStruct, entryOk, structOk, Outcome.ok_bind]; rfl,
      .supplied known struct, .refl sizes tables, sound⟩
  | none =>
    obtain ⟨some, all⟩ := can
    obtain ⟨fields, grown, fieldsOk, isFields, grows, grownSound⟩ :=
      Tables.fieldsFor_run sound closed all
    have filled : ensure (!fields.isEmpty) = .ok () := by
      have same := isFields.length_eq
      cases fields with
      | nil => exact absurd (List.eq_nil_of_length_eq_zero same) some
      | cons field fields => rfl
    have known {field : Field} (member : field ∈ fields) :
        field.type.index < grown.types.size := by
      obtain ⟨id, -, entry, there, isField⟩ := Outcome.forall₂_exists_left isFields member
      exact isField.type_lt (Nat.lt_of_lt_of_le (closed.vars there) grows.size_types)
    have novel : grown.Novel sizes grown.types.size
        (.struct (category.structName .internal) fields) := fun field member => known member
    have toAfter := Tables.addStruct_grows novel
    refine ⟨_, _, _, _, by
      simp only [internalStruct, createInternal, fieldsOk, Tables.createStruct, filled,
        Outcome.ok_bind, Outcome.pure_eq_ok]; rfl, ?_, grows.trans toAfter, ?_⟩
    · refine .created (isFields.imp fun id field => ?_) grows.size_types
        (Tables.addStruct_types _ _)
      rintro ⟨entry, there, isField⟩
      exact ⟨entry, there, isField.widen (fun isSampler => isSampler) toAfter.toExtends⟩
    · exact toAfter.sound grownSound fun member => .inl member

/-- Only a category that can get its struct does. -/
theorem internalStruct_inv (sound : tables.Sound) (closed : tables.Closed) {struct : TypeId}
    {declared : List Global} {registry : Invariance} (some : members ≠ [])
    (made : internalStruct tables invariance category supplied members =
      .ok (struct, declared, after, registry)) :
    CanGather tables invariance category supplied members (fun _ => True) := by
  cases supplied with
  | some id =>
    simp only [internalStruct, Outcome.bind_eq_ok_iff, Tables.variableAt_eq_ok_iff,
      Tables.typeAt_eq_ok_iff] at made
    obtain ⟨entry, known, type, typeKnown, ⟨⟩, isStruct, -⟩ := made
    have struct := ensure_eq_ok_iff.mp isStruct
    cases type <;> simp [Ty.isStruct] at struct
    exact ⟨entry, _, _, known, typeKnown⟩
  | none =>
    simp only [internalStruct, createInternal, Outcome.bind_eq_ok_iff] at made
    obtain ⟨_, ⟨⟨fields, grown⟩, fieldsOk, -⟩, -⟩ := made
    exact ⟨some, Tables.fieldsFor_inv sound closed fieldsOk⟩

end Gathering

end ShaderPipeline
