import ShaderPipeline.Proofs.Types

/-!
# How types come into the tables

Types come in by three steps: a struct is added, a shared type is asked for by
its key, and a struct is registered as a texture environment. `MakesTypes` is a
chain of such steps, and whatever makes types is one. So what each of the steps
keeps, everything that makes types keeps: that shared types have one identity
each, and all that was there before.
-/

namespace ShaderPipeline

/-- Whether a type is of a kind that is made, and not only predefined. -/
def Ty.isMade (type : Ty) : Bool := type.isStruct || type.key?.isSome

namespace Tables

variable {tables before middle after : Tables}

/-- An entry of a grown table is an old one or of a kind that is made. -/
theorem Grows.entry {sizes : Nat → Prop} (grows : Grows sizes before after) {index : Nat}
    {type : Ty} (there : after.types[index]? = some type) :
    before.types[index]? = some type ∨ type.isMade = true := by
  refine (grows.cases there).imp_right fun ⟨_, novel⟩ => ?_
  cases type with
  | struct | array | pointer | texture => rfl
  | scalar | vector | matrix | image | sampler | eliminated => exact novel.elim

/-- Only types are added. A texture environment stays the one of its kind, and a new one is made as
it should be. -/
structure Registers (before after : Tables) : Prop extends Extends before after where
  sameVars : after.vars = before.vars
  sameFunctions : after.functions = before.functions
  envs : ∀ {kind : ImageKind} {id : TypeId}, before.textureEnvs.lookup kind = some id →
    after.textureEnvs.lookup kind = some id
  newEnvs : ∀ {kind : ImageKind} {id : TypeId}, (kind, id) ∈ after.textureEnvs →
    (kind, id) ∈ before.textureEnvs ∨ after.IsEnv kind id

/-- Tables that grow by types alone register types. -/
theorem Extends.registers (extended : before.Extends after) (sameVars : after.vars = before.vars)
    (sameFunctions : after.functions = before.functions)
    (sameEnvs : after.textureEnvs = before.textureEnvs) : before.Registers after where
  toExtends := extended
  sameVars := sameVars
  sameFunctions := sameFunctions
  envs found := sameEnvs ▸ found
  newEnvs member := .inl (sameEnvs ▸ member)

/-- Tables that stay as they are register nothing. -/
theorem Registers.refl (tables : Tables) : tables.Registers tables :=
  (Extends.refl tables).registers rfl rfl rfl

/-- What is registered in two steps is registered. -/
theorem Registers.trans (first : before.Registers middle) (second : middle.Registers after) :
    before.Registers after where
  toExtends := first.toExtends.trans second.toExtends
  sameVars := second.sameVars.trans first.sameVars
  sameFunctions := second.sameFunctions.trans first.sameFunctions
  envs found := second.envs (first.envs found)
  newEnvs member := by
    rcases second.newEnvs member with inMiddle | isEnv
    · exact (first.newEnvs inMiddle).imp_right second.toExtends.isEnv
    · exact .inr isEnv

/-! ## The steps -/

/-- Adding a struct registers a type. -/
theorem addStruct_registers (name : Name) (fields : List Field) :
    tables.Registers (tables.addStruct name fields).2 :=
  (addStruct_extends name fields).registers rfl rfl rfl

/-- Sharing a type registers at most that type. -/
theorem intern_registers (key : TypeKey) : tables.Registers (tables.intern key).2 := by
  unfold intern
  split
  · exact .refl tables
  · exact (addShared_extends _).registers rfl rfl rfl

/-- A texture environment may be registered for a kind that has none. -/
theorem registerEnv_registers {kind : ImageKind} {id : TypeId} (isEnv : tables.IsEnv kind id)
    (unknown : tables.textureEnvs.lookup kind = none) :
    tables.Registers (tables.registerEnv kind id) where
  stage := rfl
  types known := known
  vars known := known
  functions known := known
  sameVars := rfl
  sameFunctions := rfl
  envs {other _} found := by
    have different : other ≠ kind := by
      rintro rfl
      simp [unknown] at found
    simpa [registerEnv, List.lookup_cons, beq_false_of_ne different] using found
  newEnvs {other _} member := by
    rcases List.mem_cons.mp member with same | old
    · obtain ⟨rfl, rfl⟩ := Prod.mk.inj same
      exact .inr isEnv
    · exact .inl old

/-- A shared type is there under the identity that was asked for. -/
theorem intern_known (key : TypeKey) :
    (tables.intern key).2.types[(tables.intern key).1.index]? = some key.type := by
  unfold intern
  split
  case h_1 id found => exact find?_known found
  case h_2 unknown => exact addShared_types unknown

/-- Sharing a type registers no texture environment. -/
theorem intern_textureEnvs (key : TypeKey) :
    (tables.intern key).2.textureEnvs = tables.textureEnvs := by
  unfold intern
  split <;> rfl

/-! ## One identity for a shared type -/

/-- No shared type has two identities. -/
def Canonical (tables : Tables) : Prop :=
  ∀ (key : TypeKey) (first second : TypeId), tables.types[first.index]? = some key.type →
    tables.types[second.index]? = some key.type → first = second

/-- So the look-up of a key leads to the types that have it, and to all of them. -/
theorem Canonical.find?_eq_some_iff (canonical : tables.Canonical) {key : TypeKey} {id : TypeId} :
    tables.find? key = some id ↔ tables.types[id.index]? = some key.type := by
  refine ⟨find?_known, fun known => ?_⟩
  obtain ⟨other, found⟩ := Option.isSome_iff_exists.mp (find?_isSome key known)
  rw [found, canonical key other id (find?_known found) known]

/-- Whether shared types have one identity depends on the types only. -/
theorem Canonical.congr (canonical : before.Canonical) (same : after.types = before.types) :
    after.Canonical :=
  fun key first second isFirst isSecond =>
    canonical key first second (same ▸ isFirst) (same ▸ isSecond)

/-- One more type is harmless if it is not shared or was not known. -/
theorem Canonical.push {type : Ty} (canonical : before.Canonical)
    (types : after.types = before.types.push type)
    (new : ∀ key : TypeKey, type = key.type → before.find? key = none) : after.Canonical := by
  intro key first second isFirst isSecond
  have absent {id : TypeId} (same : type = key.type) :
      before.types[id.index]? ≠ some key.type := by
    intro known
    have present := find?_isSome key known
    simp [new key same] at present
  rw [types, Array.getElem?_push] at isFirst isSecond
  split at isFirst
  case isTrue firstLast =>
    split at isSecond
    case isTrue secondLast => exact congrArg TypeId.mk (firstLast.trans secondLast.symm)
    case isFalse => exact absurd isSecond (absent (Option.some.inj isFirst))
  case isFalse =>
    split at isSecond
    case isTrue => exact absurd isFirst (absent (Option.some.inj isSecond))
    case isFalse => exact canonical key first second isFirst isSecond

/-- So a type is told by its array structure. -/
theorem Canonical.eq_of_hasShape (canonical : tables.Canonical) {one other base : TypeId}
    {extents : List Nat} (shape : tables.HasShape one extents base)
    (otherShape : tables.HasShape other extents base) : one = other := by
  induction shape generalizing other with
  | base =>
    cases otherShape
    rfl
  | @array one element base size extents known _ inductionHypothesis =>
    cases otherShape with
    | array otherKnown inner =>
      obtain rfl := inductionHypothesis inner
      exact canonical (.array element size) one other known otherKnown

/-- A struct is not shared, so the shared types keep their one identity. -/
theorem Canonical.addStruct (canonical : tables.Canonical) (name : Name) (fields : List Field) :
    (tables.addStruct name fields).2.Canonical := by
  refine canonical.push rfl fun key same => ?_
  cases key <;> simp [TypeKey.type] at same

/-- Sharing a type gives it one identity. -/
theorem Canonical.intern (canonical : tables.Canonical) (key : TypeKey) :
    (tables.intern key).2.Canonical := by
  unfold Tables.intern
  split
  · exact canonical
  case h_2 unknown =>
    refine canonical.push rfl fun other same => ?_
    rw [← TypeKey.type_injective same]
    exact unknown

/-! ## Chains of steps -/

/-- Types are made, step by step. -/
inductive MakesTypes (before : Tables) : Tables → Prop where
  | nothing : MakesTypes before before
  | struct {middle : Tables} (earlier : MakesTypes before middle) (name : Name)
      (fields : List Field) : MakesTypes before (middle.addStruct name fields).2
  | shared {middle : Tables} (earlier : MakesTypes before middle) (key : TypeKey) :
      MakesTypes before (middle.intern key).2
  | env {middle : Tables} (earlier : MakesTypes before middle) {kind : ImageKind} {id : TypeId}
      (isEnv : middle.IsEnv kind id) (unknown : middle.textureEnvs.lookup kind = none) :
      MakesTypes before (middle.registerEnv kind id)

namespace MakesTypes

/-- Steps that make types may follow one another. -/
theorem trans (first : before.MakesTypes middle) (second : middle.MakesTypes after) :
    before.MakesTypes after := by
  induction second with
  | nothing => exact first
  | struct _ name fields inductionHypothesis => exact .struct inductionHypothesis name fields
  | shared _ key inductionHypothesis => exact .shared inductionHypothesis key
  | env _ isEnv unknown inductionHypothesis => exact .env inductionHypothesis isEnv unknown

/-- Making types registers types and does nothing else. -/
theorem registers (makes : before.MakesTypes after) : before.Registers after := by
  induction makes with
  | nothing => exact .refl before
  | struct _ name fields inductionHypothesis =>
    exact inductionHypothesis.trans (addStruct_registers name fields)
  | shared _ key inductionHypothesis => exact inductionHypothesis.trans (intern_registers key)
  | env _ isEnv unknown inductionHypothesis =>
    exact inductionHypothesis.trans (registerEnv_registers isEnv unknown)

/-- However types are made, shared ones keep their one identity. -/
theorem canonical (makes : before.MakesTypes after) (canonical : before.Canonical) :
    after.Canonical := by
  induction makes with
  | nothing => exact canonical
  | struct _ name fields inductionHypothesis => exact inductionHypothesis.addStruct name fields
  | shared _ key inductionHypothesis => exact inductionHypothesis.intern key
  | env _ _ _ inductionHypothesis => exact inductionHypothesis.congr rfl

/-- What is made is a struct or shared. -/
theorem entry (makes : before.MakesTypes after) {index : Nat} {type : Ty}
    (there : after.types[index]? = some type) :
    before.types[index]? = some type ∨ type.isMade = true := by
  induction makes with
  | nothing => exact .inl there
  | struct _ name fields inductionHypothesis =>
    rw [addStruct, Array.getElem?_push] at there
    split at there
    · obtain rfl := Option.some.inj there
      exact .inr rfl
    · exact inductionHypothesis there
  | shared _ key inductionHypothesis =>
    unfold intern at there
    split at there
    · exact inductionHypothesis there
    · rw [addShared, Array.getElem?_push] at there
      split at there
      · obtain rfl := Option.some.inj there
        exact .inr (by simp [Ty.isMade])
      · exact inductionHypothesis there
  | env _ _ _ inductionHypothesis => exact inductionHypothesis there

end MakesTypes

/-- An array with several extents is made array by array. -/
theorem arrayOver_makes (extents : List Nat) (base : TypeId) :
    tables.MakesTypes (tables.arrayOver extents base).2 := by
  induction extents with
  | nil => exact .nothing
  | cons size inner inductionHypothesis => exact .shared inductionHypothesis _

/-- Asking for a texture environment makes it, if there is none of its kind. -/
theorem textureEnv_makes (kind : ImageKind) :
    tables.MakesTypes (tables.textureEnv kind).2 ∧
      (tables.textureEnv kind).2.textureEnvs.lookup kind = some (tables.textureEnv kind).1 := by
  unfold textureEnv
  split
  case h_1 id found => exact ⟨.nothing, found⟩
  case h_2 unknown =>
    -- The texture, the pointers to it and to the sampling state, and the struct, in this order.
    have textureKnown := @intern_known tables (.texture kind)
    have oneEnvs := @intern_textureEnvs tables (.texture kind)
    have toOne : tables.MakesTypes (tables.intern (.texture kind)).2 := .shared .nothing _
    generalize tables.intern (.texture kind) = made at textureKnown oneEnvs toOne ⊢
    obtain ⟨texture, one⟩ := made
    have pointerKnown := @intern_known one (.pointer texture)
    have twoEnvs := @intern_textureEnvs one (.pointer texture)
    have toTwo : one.MakesTypes (one.intern (.pointer texture)).2 := .shared .nothing _
    dsimp only
    generalize one.intern (.pointer texture) = made at pointerKnown twoEnvs toTwo ⊢
    obtain ⟨pointer, two⟩ := made
    have samplerKnown := @intern_known two (.pointer .sampler)
    have threeEnvs := @intern_textureEnvs two (.pointer .sampler)
    have toThree : two.MakesTypes (two.intern (.pointer .sampler)).2 := .shared .nothing _
    dsimp only
    generalize two.intern (.pointer .sampler) = made at samplerKnown threeEnvs toThree ⊢
    obtain ⟨sampler, three⟩ := made
    have toStruct := @addStruct_registers three textureEnvName (textureEnvFields pointer sampler)
    have makes := ((toOne.trans toTwo).trans toThree).struct textureEnvName
      (textureEnvFields pointer sampler)
    have isEnv : (three.addStruct textureEnvName (textureEnvFields pointer sampler)).2.IsEnv kind
        (three.addStruct textureEnvName (textureEnvFields pointer sampler)).1 :=
      ⟨texture, pointer, sampler, addStruct_types _ _,
        (toThree.registers.trans toStruct).types pointerKnown,
        ((toTwo.trans toThree).registers.trans toStruct).types textureKnown,
        toStruct.types samplerKnown⟩
    have fresh : three.textureEnvs.lookup kind = none := by
      rw [threeEnvs, twoEnvs, oneEnvs, unknown]
    exact ⟨makes.env isEnv fresh, by simp [registerEnv]⟩

end Tables

end ShaderPipeline
