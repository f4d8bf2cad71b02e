import Mathlib.Data.List.Nodup
import Mathlib.Data.List.Perm.Subperm
import ShaderPipeline.Gathering
import ShaderPipeline.Proofs.Tables

/-!
# The type table

`Sound` is what the operations on the table keep: the fixed identities name the
fixed types, no type goes out of use, and a texture environment is a pointer to a
texture next to one to a sampling state. `Grows` describes how lowering extends
the table: with structs, arrays, textures and pointers to them, whose parts all
come earlier.
-/

namespace ShaderPipeline

namespace Tables

variable {tables before middle after : Tables} {sizes : Nat → Prop}

/-- The texture environment of an image kind. -/
def IsEnv (tables : Tables) (kind : ImageKind) (id : TypeId) : Prop :=
  ∃ texture texturePointer samplerPointer : TypeId,
    tables.types[id.index]? =
      some (.struct textureEnvName (textureEnvFields texturePointer samplerPointer)) ∧
    tables.types[texturePointer.index]? = some (.pointer texture) ∧
    tables.types[texture.index]? = some (.texture kind) ∧
    tables.types[samplerPointer.index]? = some (.pointer .sampler)

/-- What holds of the type table of every shader. -/
structure Sound (tables : Tables) : Prop where
  predefined : ∀ {index : Nat} {type : Ty}, predefinedTypes[index]? = some type →
    tables.types[index]? = some type
  inUse : ∀ {index : Nat} {type : Ty}, tables.types[index]? = some type →
    type.isEliminated = false
  vectors : ∀ {index : Nat} {component : TypeId} {size : Nat},
    tables.types[index]? = some (.vector component size) → 2 ≤ size ∧ size ≤ 4
  envs : ∀ {kind : ImageKind} {id : TypeId}, (kind, id) ∈ tables.textureEnvs → tables.IsEnv kind id

/-- Every type is made of earlier ones. -/
def Acyclic (tables : Tables) : Prop :=
  ∀ {index : Nat} {type : Ty}, tables.types[index]? = some type →
    ∀ part ∈ type.parts, part.index < index

/-! ### Checks of given tables -/

/-- A rule for the entries that are found is one for the entries that there are. -/
theorem forall_getElem?_iff {α : Type} {entries : Array α} {rule : Nat → α → Prop} :
    (∀ {index : Nat} {entry : α}, entries[index]? = some entry → rule index entry) ↔
      ∀ index : Fin entries.size, rule index entries[index] := by
  constructor
  · intro all index
    exact all (Array.getElem?_eq_getElem index.isLt)
  · intro all index entry known
    obtain ⟨inside, rfl⟩ := Array.getElem?_eq_some_iff.mp known
    exact all ⟨index, inside⟩

instance (tables : Tables) : Decidable tables.Acyclic :=
  decidable_of_iff _ forall_getElem?_iff.symm

/-- The identities in a texture environment are among those of the table. -/
theorem isEnv_iff {kind : ImageKind} {id : TypeId} : tables.IsEnv kind id ↔
    ∃ texture texturePointer samplerPointer : Fin tables.types.size,
      tables.types[id.index]? =
        some (.struct textureEnvName (textureEnvFields ⟨texturePointer⟩ ⟨samplerPointer⟩)) ∧
      tables.types[texturePointer.val]? = some (.pointer ⟨texture⟩) ∧
      tables.types[texture.val]? = some (.texture kind) ∧
      tables.types[samplerPointer.val]? = some (.pointer .sampler) := by
  constructor
  · rintro ⟨⟨texture⟩, ⟨texturePointer⟩, ⟨samplerPointer⟩, struct, first, second, third⟩
    exact ⟨⟨texture, (Array.getElem?_eq_some_iff.mp second).1⟩,
      ⟨texturePointer, (Array.getElem?_eq_some_iff.mp first).1⟩,
      ⟨samplerPointer, (Array.getElem?_eq_some_iff.mp third).1⟩, struct, first, second, third⟩
  · rintro ⟨texture, texturePointer, samplerPointer, isEnv⟩
    exact ⟨⟨texture⟩, ⟨texturePointer⟩, ⟨samplerPointer⟩, isEnv⟩

instance (tables : Tables) (kind : ImageKind) (id : TypeId) : Decidable (tables.IsEnv kind id) :=
  decidable_of_iff _ isEnv_iff.symm

/-- A vector has two to four components. -/
def VectorFits : Ty → Prop
  | .vector _ size => 2 ≤ size ∧ size ≤ 4
  | _ => True

instance (type : Ty) : Decidable (VectorFits type) :=
  match type with
  | .vector _ size => inferInstanceAs (Decidable (2 ≤ size ∧ size ≤ 4))
  | .scalar _ | .matrix _ _ | .image _ | .texture _ | .sampler | .struct _ _ | .array _ _
  | .pointer _ | .eliminated => .isTrue trivial

/-- Soundness is a condition on each predefined type, each entry and each registered environment, so
it can be tested. -/
theorem sound_iff : tables.Sound ↔
    (∀ index : Fin predefinedTypes.length,
      tables.types[index.val]? = some predefinedTypes[index]) ∧
    (∀ type ∈ tables.types, type.isEliminated = false ∧ VectorFits type) ∧
    ∀ entry ∈ tables.textureEnvs, tables.IsEnv entry.1 entry.2 := by
  constructor
  · intro sound
    refine ⟨fun index => sound.predefined (List.getElem?_eq_getElem index.isLt), ?_,
      fun entry member => sound.envs member⟩
    intro type member
    obtain ⟨index, known⟩ := Array.mem_iff_getElem?.mp member
    refine ⟨sound.inUse known, ?_⟩
    cases type with
    | vector component size => exact sound.vectors known
    | _ => trivial
  · rintro ⟨predefined, plain, envs⟩
    refine ⟨fun {index type} known => ?_, fun known => (plain _ (Array.mem_of_getElem? known)).1,
      fun known => (plain _ (Array.mem_of_getElem? known)).2, fun member => envs _ member⟩
    obtain ⟨inside, rfl⟩ := List.getElem?_eq_some_iff.mp known
    exact predefined ⟨index, inside⟩

instance (tables : Tables) : Decidable tables.Sound := decidable_of_iff _ sound_iff.symm

/-- The extents of all arrays are as wanted. -/
def Sized (tables : Tables) (sizes : Nat → Prop) : Prop :=
  ∀ {index : Nat} {element : TypeId} {size : Nat},
    tables.types[index]? = some (.array element size) → sizes size

/-- A type that is added on the way under the given identity, with wanted extents. -/
def Novel (tables : Tables) (sizes : Nat → Prop) (index : Nat) : Ty → Prop
  | .struct _ fields => ∀ field ∈ fields, field.type.index < index
  | .array element size => element.index < index ∧ sizes size
  | .pointer pointee => pointee.index < index ∧
      (tables.types[pointee.index]? = some .sampler ∨
        ∃ kind, tables.types[pointee.index]? = some (.texture kind))
  | .texture _ => True
  | _ => False

/-- The tables after have more types, all of them novel, and the same variables and functions. -/
structure Grows (sizes : Nat → Prop) (before after : Tables) : Prop extends Extends before after where
  sameVars : after.vars = before.vars
  sameFunctions : after.functions = before.functions
  news : ∀ {index : Nat} {type : Ty}, before.types.size ≤ index →
    after.types[index]? = some type → after.Novel sizes index type

/-- A type that is new in the tables is new in tables that grew from them. -/
theorem Extends.novel (extended : before.Extends after) {index : Nat} {type : Ty}
    (novel : before.Novel sizes index type) : after.Novel sizes index type := by
  cases type with
  | pointer pointee =>
    refine ⟨novel.1, ?_⟩
    rcases novel.2 with sampler | ⟨kind, texture⟩
    · exact .inl (extended.types sampler)
    · exact .inr ⟨kind, extended.types texture⟩
  | struct | array | texture => exact novel
  | scalar | vector | matrix | image | sampler | eliminated => exact novel.elim

/-- Tables that stay as they are have no new type. -/
theorem Grows.refl (sizes : Nat → Prop) (tables : Tables) : Grows sizes tables tables where
  toExtends := .refl tables
  sameVars := rfl
  sameFunctions := rfl
  news := by
    intro index type new there
    have old := (Array.getElem?_eq_some_iff.mp there).1
    omega

/-- If two steps only make new types, so do both together. -/
theorem Grows.trans (first : Grows sizes before middle) (second : Grows sizes middle after) :
    Grows sizes before after where
  toExtends := first.toExtends.trans second.toExtends
  sameVars := second.sameVars.trans first.sameVars
  sameFunctions := second.sameFunctions.trans first.sameFunctions
  news := by
    intro index type new there
    by_cases inMiddle : index < middle.types.size
    · have known := Array.getElem?_eq_getElem inMiddle
      obtain rfl : _ = type := by simpa [second.types known] using there
      exact second.toExtends.novel (first.news new known)
    · exact second.news (Nat.not_lt.mp inMiddle) there

/-- An entry of the grown table is an old one or a novel one. -/
theorem Grows.cases (grows : Grows sizes before after) {index : Nat} {type : Ty}
    (there : after.types[index]? = some type) :
    before.types[index]? = some type ∨ (before.types.size ≤ index ∧ after.Novel sizes index type) := by
  by_cases old : index < before.types.size
  · have known := Array.getElem?_eq_getElem old
    obtain rfl : _ = type := by simpa [grows.types known] using there
    exact .inl known
  · exact .inr ⟨Nat.not_lt.mp old, grows.news (Nat.not_lt.mp old) there⟩

/-- The parts of a novel type come before it. -/
theorem Novel.parts {index : Nat} {type : Ty} (novel : tables.Novel sizes index type) :
    ∀ part ∈ type.parts, part.index < index := by
  intro part member
  cases type with
  | struct name fields =>
    obtain ⟨field, own, rfl⟩ := List.mem_map.mp member
    exact novel field own
  | array element size =>
    obtain rfl := List.mem_singleton.mp member
    exact novel.1
  | pointer pointee =>
    obtain rfl := List.mem_singleton.mp member
    exact novel.1
  | texture => simp [Ty.parts] at member
  | scalar | vector | matrix | image | sampler | eliminated => exact novel.elim

/-- Types that refer to earlier ones only still do when new types are made. -/
theorem Grows.acyclic (grows : Grows sizes before after) (acyclic : before.Acyclic) :
    after.Acyclic := by
  intro index type there part member
  rcases grows.cases there with old | ⟨-, novel⟩
  · exact acyclic old part member
  · exact novel.parts part member

/-- The sizes of all arrays stay as they should be when new types are made. -/
theorem Grows.sized (grows : Grows sizes before after) (sized : before.Sized sizes) :
    after.Sized sizes := by
  intro index element size there
  rcases grows.cases there with old | ⟨-, novel⟩
  · exact sized old
  · exact novel.2

/-- Growing keeps a table sound, if the new texture environments are ones. -/
theorem Grows.sound (grows : Grows sizes before after) (sound : before.Sound)
    (envs : ∀ {kind : ImageKind} {id : TypeId}, (kind, id) ∈ after.textureEnvs →
      (kind, id) ∈ before.textureEnvs ∨ after.IsEnv kind id) : after.Sound where
  predefined known := grows.types (sound.predefined known)
  inUse := by
    intro index type there
    rcases grows.cases there with old | ⟨-, novel⟩
    · exact sound.inUse old
    · cases type <;> first | rfl | exact novel.elim
  vectors := by
    intro index component size there
    rcases grows.cases there with old | ⟨-, novel⟩
    · exact sound.vectors old
    · exact novel.elim
  envs := by
    intro kind id member
    rcases envs member with old | new
    · obtain ⟨texture, texturePointer, samplerPointer, struct, first, second, third⟩ :=
        sound.envs old
      exact ⟨texture, texturePointer, samplerPointer, grows.types struct, grows.types first,
        grows.types second, grows.types third⟩
    · exact new

/-- Adding variables and functions keeps what is known about the types. -/
theorem Adds.sound (adds : before.Adds after) (sound : before.Sound) : after.Sound where
  predefined known := by
    rw [adds.sameTypes]
    exact sound.predefined known
  inUse there := sound.inUse (adds.sameTypes ▸ there)
  vectors there := sound.vectors (adds.sameTypes ▸ there)
  envs member := by
    have env := sound.envs (adds.sameEnvs ▸ member)
    simpa [IsEnv, adds.sameTypes] using env

/-- A known type of a sound table is in use. -/
theorem Sound.inUse_of_lt (sound : tables.Sound) {id : TypeId}
    (known : id.index < tables.types.size) : tables.InUse id :=
  ⟨_, Array.getElem?_eq_getElem known, sound.inUse (Array.getElem?_eq_getElem known)⟩

/-! ## Operations -/

/-- Tables with one more type, which is as wanted. -/
theorem Extends.grows {type : Ty} (extended : tables.Extends after)
    (types : after.types = tables.types.push type) (sameVars : after.vars = tables.vars)
    (sameFunctions : after.functions = tables.functions)
    (novel : tables.Novel sizes tables.types.size type) : Grows sizes tables after where
  toExtends := extended
  sameVars := sameVars
  sameFunctions := sameFunctions
  news := by
    intro index other new there
    refine extended.novel ?_
    have bound := (Array.getElem?_eq_some_iff.mp there).1
    rw [types, Array.size_push] at bound
    obtain rfl : index = tables.types.size := by omega
    obtain rfl : type = other := by simpa [types] using there
    exact novel

/-- A struct over known types is a new type. -/
theorem addStruct_grows {name : Name} {fields : List Field}
    (novel : tables.Novel sizes tables.types.size (.struct name fields)) :
    Grows sizes tables (tables.addStruct name fields).2 :=
  (addStruct_extends name fields).grows rfl rfl rfl novel

/-- A struct that was added is found under its identity. -/
theorem addStruct_types (name : Name) (fields : List Field) :
    (tables.addStruct name fields).2.types[(tables.addStruct name fields).1.index]? =
      some (.struct name fields) := by
  simp [addStruct]

/-- A struct adds no extents. -/
theorem Sized.addStruct (sized : tables.Sized sizes) (name : Name) (fields : List Field) :
    (tables.addStruct name fields).2.Sized sizes := by
  intro index element size there
  rw [Tables.addStruct, Array.getElem?_push] at there
  split at there
  · cases there
  · exact sized there

/-- So is a type that is shared. -/
theorem addShared_types {key : TypeKey} (unknown : tables.find? key = none) :
    (tables.addShared key unknown).2.types[(tables.addShared key unknown).1.index]? =
      some key.type := by
  simp [addShared]

/-- A shared type is there under the identity that was asked for. -/
theorem intern_run {key : TypeKey} (novel : tables.Novel sizes tables.types.size key.type) :
    ∃ id after, tables.intern key = (id, after) ∧ after.types[id.index]? = some key.type ∧
      Grows sizes tables after ∧ after.textureEnvs = tables.textureEnvs := by
  unfold intern
  split
  case h_1 id found => exact ⟨_, _, rfl, find?_known found, .refl sizes tables, rfl⟩
  case h_2 unknown =>
    exact ⟨_, _, rfl, addShared_types unknown,
      (addShared_extends unknown).grows rfl rfl rfl novel, rfl⟩

/-- A texture environment is one as long as the types stay. -/
theorem IsEnv.mono {kind : ImageKind} {id : TypeId} (env : before.IsEnv kind id)
    (types : ∀ {index : Nat} {type : Ty}, before.types[index]? = some type →
      after.types[index]? = some type) : after.IsEnv kind id := by
  obtain ⟨texture, texturePointer, samplerPointer, struct, first, second, third⟩ := env
  exact ⟨texture, texturePointer, samplerPointer, types struct, types first, types second,
    types third⟩

/-- A texture environment stays one while the tables grow. -/
theorem Extends.isEnv (extended : before.Extends after) {kind : ImageKind} {id : TypeId}
    (env : before.IsEnv kind id) : after.IsEnv kind id := env.mono extended.types

/-- A type that is found is within the tables. -/
theorem index_lt_of_getElem? {id : TypeId} {type : Ty}
    (known : tables.types[id.index]? = some type) : id.index < tables.types.size :=
  (Array.getElem?_eq_some_iff.mp known).1

/-- Asking for a texture environment gives one, and the table stays sound. -/
theorem Sound.textureEnv_run (sound : tables.Sound) (sizes : Nat → Prop) (kind : ImageKind) :
    ∃ id after, tables.textureEnv kind = (id, after) ∧ after.IsEnv kind id ∧
      Grows sizes tables after ∧ after.Sound := by
  unfold Tables.textureEnv
  split
  case h_1 id found =>
    have member : (kind, id) ∈ tables.textureEnvs := by
      obtain ⟨front, back, same, -⟩ := List.lookup_eq_some_iff.mp found
      simp [same]
    exact ⟨_, _, rfl, sound.envs member, .refl sizes tables, sound⟩
  case h_2 =>
    -- The texture, the pointers to it and to the sampling state, and the struct, in this order.
    obtain ⟨texture, one, textureOk, textureKnown, toOne, oneEnvs⟩ :=
      @intern_run tables sizes (.texture kind) trivial
    obtain ⟨texturePointer, two, texturePointerOk, texturePointerKnown, toTwo, twoEnvs⟩ :=
      @intern_run one sizes (.pointer texture)
        ⟨index_lt_of_getElem? textureKnown, .inr ⟨kind, textureKnown⟩⟩
    have samplerKnown : two.types[TypeId.sampler.index]? = some .sampler :=
      (toOne.trans toTwo).types (sound.predefined rfl)
    obtain ⟨samplerPointer, three, samplerPointerOk, samplerPointerKnown, toThree, threeEnvs⟩ :=
      @intern_run two sizes (.pointer .sampler) ⟨index_lt_of_getElem? samplerKnown, .inl samplerKnown⟩
    have toFour := @addStruct_grows three sizes textureEnvName
      (textureEnvFields texturePointer samplerPointer) (by
        simp only [Novel, textureEnvFields, List.forall_mem_cons]
        exact ⟨Nat.lt_of_lt_of_le (index_lt_of_getElem? texturePointerKnown) toThree.size_types,
          index_lt_of_getElem? samplerPointerKnown, by simp⟩)
    simp only [textureOk, texturePointerOk, samplerPointerOk]
    generalize struct : three.addStruct textureEnvName
      (textureEnvFields texturePointer samplerPointer) = result
    rw [struct] at toFour
    obtain ⟨id, four⟩ := result
    have structKnown : four.types[id.index]? =
        some (.struct textureEnvName (textureEnvFields texturePointer samplerPointer)) := by
      simpa [struct] using @addStruct_types three textureEnvName
        (textureEnvFields texturePointer samplerPointer)
    have fourEnvs : four.textureEnvs = tables.textureEnvs := by
      have same : four.textureEnvs = three.textureEnvs := congrArg (·.2.textureEnvs) struct.symm
      rw [same, threeEnvs, twoEnvs, oneEnvs]
    have grows : Grows sizes tables four := ((toOne.trans toTwo).trans toThree).trans toFour
    have env : four.IsEnv kind id := ⟨texture, texturePointer, samplerPointer, structKnown,
      (toThree.trans toFour).types texturePointerKnown,
      ((toTwo.trans toThree).trans toFour).types textureKnown,
      toFour.types samplerPointerKnown⟩
    have registered : Grows sizes tables (four.registerEnv kind id) :=
      ⟨⟨grows.stage, grows.types, grows.vars, grows.functions⟩, grows.sameVars,
        grows.sameFunctions, grows.news⟩
    refine ⟨id, _, rfl, env, registered, registered.sound sound fun member => ?_⟩
    rcases List.mem_cons.mp member with same | old
    · obtain ⟨rfl, rfl⟩ := Prod.mk.inj same
      exact .inr env
    · exact .inl (fourEnvs ▸ old)

/-! ## Array structure -/

/-- The type has arrays with the given extents, outermost first, over a type that is no array. -/
inductive HasShape (tables : Tables) : TypeId → List Nat → TypeId → Prop where
  | base {id : TypeId} {type : Ty} (known : tables.types[id.index]? = some type)
      (plain : type.isArray = false) : HasShape tables id [] id
  | array {id element base : TypeId} {size : Nat} {extents : List Nat}
      (known : tables.types[id.index]? = some (.array element size))
      (inner : HasShape tables element extents base) : HasShape tables id (size :: extents) base

/-- The shape of a type stays the same while the tables grow. -/
theorem HasShape.extends {id base : TypeId} {extents : List Nat}
    (shape : before.HasShape id extents base) (extended : before.Extends after) :
    after.HasShape id extents base := by
  induction shape with
  | base known plain => exact .base (extended.types known) plain
  | array known _ inductionHypothesis => exact .array (extended.types known) inductionHypothesis

/-- The shape of a type depends on the types only. -/
theorem HasShape.congr {id base : TypeId} {extents : List Nat}
    (shape : before.HasShape id extents base) (same : after.types = before.types) :
    after.HasShape id extents base := by
  induction shape with
  | base known plain => exact .base (same ▸ known) plain
  | array known _ inductionHypothesis => exact .array (same ▸ known) inductionHypothesis

/-- Reading a shape reaches the innermost type if it may go as deep as there are extents. -/
theorem HasShape.shapeWithin_eq {id base : TypeId} {extents : List Nat}
    (shape : tables.HasShape id extents base) {depth : Nat} (deep : extents.length ≤ depth) :
    tables.shapeWithin depth id = ⟨extents, base⟩ := by
  induction shape generalizing depth with
  | base known plain =>
    cases depth with
    | zero => rfl
    | succ depth =>
      simp only [shapeWithin, known]
      split
      · simp_all [Ty.isArray]
      · rfl
  | array known _ inductionHypothesis =>
    cases depth with
    | zero => simp at deep
    | succ depth =>
      have inner := @inductionHypothesis depth (by simpa using deep)
      simp [shapeWithin, known, inner]

/-- So the whole table is deep enough for a shape that has no more extents than there are types. -/
theorem HasShape.shapeOf_eq {id base : TypeId} {extents : List Nat}
    (shape : tables.HasShape id extents base) (deep : extents.length ≤ tables.types.size) :
    tables.shapeOf id = ⟨extents, base⟩ := shape.shapeWithin_eq deep

/-- The type under the arrays is known and no array. -/
theorem HasShape.base_known {id base : TypeId} {extents : List Nat}
    (shape : tables.HasShape id extents base) :
    ∃ type, tables.types[base.index]? = some type ∧ type.isArray = false := by
  induction shape with
  | base known plain => exact ⟨_, known, plain⟩
  | array _ _ inductionHypothesis => exact inductionHypothesis

/-- A type that has a shape is known. -/
theorem HasShape.index_lt {id base : TypeId} {extents : List Nat}
    (shape : tables.HasShape id extents base) : id.index < tables.types.size := by
  cases shape with
  | base known => exact index_lt_of_getElem? known
  | array known => exact index_lt_of_getElem? known

/-- The extents of a shape are sizes of its arrays. -/
theorem HasShape.sized {id base : TypeId} {extents : List Nat}
    (shape : tables.HasShape id extents base) (sized : tables.Sized sizes) :
    ∀ extent ∈ extents, sizes extent := by
  induction shape with
  | base => simp
  | array known _ inductionHypothesis =>
    exact List.forall_mem_cons.mpr ⟨sized known, inductionHypothesis⟩

/-- A type has one shape. -/
theorem HasShape.unique {id base otherBase : TypeId} {extents others : List Nat}
    (shape : tables.HasShape id extents base) (other : tables.HasShape id others otherBase) :
    others = extents ∧ otherBase = base := by
  induction shape generalizing others otherBase with
  | base known plain =>
    cases other with
    | base => exact ⟨rfl, rfl⟩
    | array array =>
      obtain rfl : _ = Ty.array _ _ := Option.some.inj (known.symm.trans array)
      simp [Ty.isArray] at plain
  | array array _ inductionHypothesis =>
    cases other with
    | base known plain =>
      obtain rfl : _ = Ty.array _ _ := Option.some.inj (known.symm.trans array)
      simp [Ty.isArray] at plain
    | array otherArray inner =>
      obtain ⟨rfl, rfl⟩ := Ty.array.inj (Option.some.inj (array.symm.trans otherArray))
      obtain ⟨rfl, rfl⟩ := inductionHypothesis inner
      exact ⟨rfl, rfl⟩

/-- A type whose arrays end has the shape that the table computes. -/
theorem hasShape_of_baseOf {id : TypeId} {type : Ty}
    (ends : tables.baseOf (tables.shapeOf id) = .ok type) :
    tables.HasShape id (tables.shapeOf id).extents (tables.shapeOf id).base ∧
      tables.types[(tables.shapeOf id).base.index]? = some type := by
  have within (depth : Nat) (id : TypeId)
      (ends : tables.baseOf (tables.shapeWithin depth id) = .ok type) :
      tables.HasShape id (tables.shapeWithin depth id).extents
          (tables.shapeWithin depth id).base ∧
        tables.types[(tables.shapeWithin depth id).base.index]? = some type := by
    have plain {base : TypeId} (stops : tables.baseOf ⟨[], base⟩ = .ok type) :
        tables.types[base.index]? = some type ∧ type.isArray = false := by
      simp only [baseOf, Outcome.bind_eq_ok_iff, typeAt_eq_ok_iff] at stops
      obtain ⟨other, known, ends⟩ := stops
      split at ends
      · simp at ends
      · obtain rfl : other = type := by simpa using ends
        exact ⟨known, by simpa using ‹¬other.isArray = true›⟩
    induction depth generalizing id with
    | zero =>
      obtain ⟨known, notArray⟩ := plain ends
      exact ⟨.base known notArray, known⟩
    | succ depth inductionHypothesis =>
      simp only [shapeWithin] at ends ⊢
      split at ends
      case h_1 element size known =>
        obtain ⟨shape, base⟩ := inductionHypothesis element ends
        exact ⟨.array known shape, base⟩
      case h_2 other =>
        obtain ⟨known, notArray⟩ := plain ends
        exact ⟨.base known notArray, known⟩
  exact within tables.types.size id ends

/-- The innermost type of a shape that was read is found in the tables. -/
theorem HasShape.baseOf_eq {id base : TypeId} {extents : List Nat} {type : Ty}
    (shape : tables.HasShape id extents base) (known : tables.types[base.index]? = some type)
    (deep : extents.length ≤ tables.types.size) :
    tables.baseOf (tables.shapeOf id) = .ok type := by
  obtain ⟨other, otherKnown, plain⟩ := shape.base_known
  obtain rfl : other = type := by simpa [known] using otherKnown.symm
  have found : tables.typeAt base = .ok other := by simpa using known
  simp [shape.shapeOf_eq deep, baseOf, found, plain]

/-- A type that ends has fewer arrays than there are types. -/
theorem HasShape.length_lt {id base : TypeId} {extents : List Nat}
    (shape : tables.HasShape id extents base) : extents.length < tables.types.size := by
  -- The types on the way to the base differ, because each of them has a shape of its own.
  have path : ∃ path : List Nat, path.length = extents.length + 1 ∧ path.Nodup ∧
      ∀ index ∈ path, index < tables.types.size ∧
        ∃ part, tables.HasShape ⟨index⟩ part base ∧ part.length ≤ extents.length := by
    induction shape with
    | @base id type known plain =>
      refine ⟨[id.index], rfl, List.nodup_singleton _, fun index own => ?_⟩
      obtain rfl := List.mem_singleton.mp own
      exact ⟨index_lt_of_getElem? known, [], .base known plain, Nat.le_refl 0⟩
    | @array id element base size extents known inner inductionHypothesis =>
      obtain ⟨path, length, distinct, each⟩ := inductionHypothesis
      refine ⟨id.index :: path, by simp [length], List.nodup_cons.mpr ⟨fun own => ?_, distinct⟩, ?_⟩
      · obtain ⟨-, part, shape, short⟩ := each _ own
        obtain ⟨rfl, -⟩ := (HasShape.array known inner).unique shape
        exact Nat.not_succ_le_self _ short
      · refine List.forall_mem_cons.mpr ⟨⟨index_lt_of_getElem? known, _, .array known inner,
          Nat.le_refl _⟩, fun index own => ?_⟩
        obtain ⟨inside, part, shape, short⟩ := each index own
        exact ⟨inside, part, shape, Nat.le_succ_of_le short⟩
  obtain ⟨path, length, distinct, each⟩ := path
  have inside : path ⊆ List.range tables.types.size := fun index own =>
    List.mem_range.mpr (each index own).1
  have fits := (List.subperm_of_subset distinct inside).length_le
  rw [List.length_range] at fits
  omega

/-- A type that ends is a sampler just in case its base is a sampled image. -/
theorem isSampler_eq_ok_iff {id : TypeId} {answer : Bool} : tables.isSampler id = .ok answer ↔
    ∃ extents base entry, tables.HasShape id extents base ∧
      tables.types[base.index]? = some entry ∧ entry.isSampledImage = answer := by
  simp only [isSampler, Outcome.bind_eq_ok_iff, Outcome.pure_eq_ok, Except.ok.injEq]
  constructor
  · rintro ⟨entry, ends, same⟩
    obtain ⟨shape, known⟩ := hasShape_of_baseOf ends
    exact ⟨_, _, entry, shape, known, same⟩
  · rintro ⟨extents, base, entry, shape, known, same⟩
    exact ⟨entry, shape.baseOf_eq known (Nat.le_of_lt shape.length_lt), same⟩

/-- The arrays of a type end, in a known type that is no array. -/
def Ends (tables : Tables) (id : TypeId) : Prop :=
  ∃ extents base, tables.HasShape id extents base

/-- A type that ends still does while the tables grow. -/
theorem Ends.extends {id : TypeId} (ends : before.Ends id) (extended : before.Extends after) :
    after.Ends id := by
  obtain ⟨extents, base, shape⟩ := ends
  exact ⟨extents, base, shape.extends extended⟩

/-- A type that ends has the shape that the table computes. -/
theorem Ends.shapeOf_eq {id : TypeId} (ends : tables.Ends id) :
    tables.HasShape id (tables.shapeOf id).extents (tables.shapeOf id).base := by
  obtain ⟨extents, base, shape⟩ := ends
  rw [shape.shapeOf_eq (Nat.le_of_lt shape.length_lt)]
  exact shape

/-- And the shape stays the same when the tables grow. -/
theorem Ends.shapeOf_extends {id : TypeId} (ends : before.Ends id)
    (extended : before.Extends after) : after.shapeOf id = before.shapeOf id := by
  obtain ⟨extents, base, shape⟩ := ends
  have later := shape.extends extended
  rw [shape.shapeOf_eq (Nat.le_of_lt shape.length_lt),
    later.shapeOf_eq (Nat.le_of_lt later.length_lt)]

/-- In an acyclic table, every known type has a shape, with fewer arrays than its identity. -/
theorem Acyclic.hasShape (acyclic : tables.Acyclic) {index : Nat}
    (inside : index < tables.types.size) :
    ∃ extents base, tables.HasShape ⟨index⟩ extents base ∧ extents.length ≤ index := by
  induction index using Nat.strongRecOn with
  | ind index inductionHypothesis =>
    have known := Array.getElem?_eq_getElem inside
    cases type : tables.types[index] with
    | array element size =>
      rw [type] at known
      have earlier : element.index < index := acyclic known element (by simp [Ty.parts])
      obtain ⟨extents, base, shape, short⟩ :=
        inductionHypothesis element.index earlier (Nat.lt_trans earlier inside)
      exact ⟨size :: extents, base, .array known shape, by simp; omega⟩
    | scalar | vector | matrix | image | texture | sampler | struct | pointer | eliminated =>
      exact ⟨[], ⟨index⟩, .base known (by simp [type, Ty.isArray]), Nat.zero_le _⟩

/-- If types refer to earlier ones only, every known type ends. -/
theorem Acyclic.ends (acyclic : tables.Acyclic) {id : TypeId}
    (inside : id.index < tables.types.size) : tables.Ends id := by
  obtain ⟨extents, base, shape, -⟩ := acyclic.hasShape inside
  exact ⟨extents, base, shape⟩

/-- So the shape that the table computes is the one that it has. -/
theorem Acyclic.shapeOf_eq (acyclic : tables.Acyclic) {id : TypeId}
    (inside : id.index < tables.types.size) :
    tables.HasShape id (tables.shapeOf id).extents (tables.shapeOf id).base :=
  (acyclic.ends inside).shapeOf_eq

/-- Array types over a known type that is no array have the extents that were asked for. -/
theorem arrayOver_run {base : TypeId} {type : Ty} {extents : List Nat}
    (known : tables.types[base.index]? = some type) (plain : type.isArray = false)
    (sized : ∀ extent ∈ extents, sizes extent) :
    ∃ id after, tables.arrayOver extents base = (id, after) ∧ after.HasShape id extents base ∧
      Grows sizes tables after ∧ after.textureEnvs = tables.textureEnvs := by
  induction extents with
  | nil => exact ⟨base, tables, rfl, .base known plain, .refl sizes tables, rfl⟩
  | cons size inner inductionHypothesis =>
    rw [List.forall_mem_cons] at sized
    obtain ⟨element, middle, innerOk, shape, toMiddle, middleEnvs⟩ := inductionHypothesis sized.2
    have elementInside : element.index < middle.types.size := by
      cases shape with
      | base known => exact index_lt_of_getElem? known
      | array known => exact index_lt_of_getElem? known
    obtain ⟨id, after, arrayOk, arrayKnown, toAfter, afterEnvs⟩ :=
      @intern_run middle sizes (.array element size) ⟨elementInside, sized.1⟩
    refine ⟨id, after, by simp [arrayOver, innerOk, arrayOk],
      .array arrayKnown (shape.extends toAfter.toExtends), toMiddle.trans toAfter,
      afterEnvs.trans middleEnvs⟩

end Tables

end ShaderPipeline
