import ShaderPipeline.Proofs.Semantics.TypedValue

/-!
# Parts of values

All values of a type have their parts at the same paths, so a path leads from a type
to the type of a part. The leaves are the parts that have no parts themselves, and
values of a type that agree on the leaves are the same. `Tables.CoveredOnce` says that
some paths reach every leaf and never reach the same part twice. Whatever the order,
writing the parts of a value along such paths gives the value.
-/

namespace ShaderPipeline

/-- Neither of two paths leads to a part of what the other one leads to. -/
def Apart (one other : List Nat) : Prop := ¬ one <+: other ∧ ¬ other <+: one

/-- Of two paths that are apart, either may be named first. -/
theorem Apart.symm {one other : List Nat} (apart : Apart one other) : Apart other one :=
  ⟨apart.2, apart.1⟩

/-- Paths with a first position are apart if the positions differ, and else if the rest is. -/
theorem apart_cons {first second : Nat} {one other : List Nat} :
    Apart (first :: one) (second :: other) ↔ first = second → Apart one other := by
  by_cases same : first = second
  · simp [Apart, same, List.cons_prefix_cons]
  · simp [Apart, same, Ne.symm same, List.cons_prefix_cons]

namespace Value

/-- Setting a part leaves the other parts. -/
theorem part_setPart_of_ne (value new : Value) {position other : Nat} (differ : position ≠ other) :
    (value.setPart position new).part other = value.part other := by
  cases value with
  | aggregate parts => simp [part, setPart, differ]
  | scalar | handle => rfl

/-- Writing changes nothing that is apart. -/
theorem read_write_of_apart (value new : Value) {path other : List Nat}
    (apart : Apart path other) : (value.write path new).read other = value.read other := by
  induction path generalizing value other with
  | nil => exact absurd List.nil_prefix apart.1
  | cons position path inductionHypothesis =>
    cases other with
    | nil => exact absurd List.nil_prefix apart.2
    | cons first other =>
      rw [write_cons, read_cons, read_cons]
      by_cases same : position = first
      · subst same
        cases value with
        | aggregate parts =>
          by_cases inside : position < parts.length
          · have goesOn := inductionHypothesis ((aggregate parts).part position)
              (apart_cons.mp apart rfl)
            simpa [part, setPart, inside] using goesOn
          · simp [part, setPart, inside]
        | scalar | handle => rfl
      · rw [part_setPart_of_ne value _ same]

end Value

namespace Tables

variable {tables before after : Tables}

/-! ## Paths from a type -/

/-- The type of the part that the values of a type have at a position. -/
def memberAt (tables : Tables) (id : TypeId) (position : Nat) : Option TypeId := do
  let members ← (← tables.types[id.index]?).members?
  members[position]?

/-- The type of the part that the values of a type have at the end of a path. -/
def partAt (tables : Tables) (id : TypeId) : List Nat → Option TypeId
  | [] => some id
  | position :: path => do tables.partAt (← tables.memberAt id position) path

/-- The path leads to a part that has no parts. -/
def IsLeaf (tables : Tables) (id : TypeId) (path : List Nat) : Prop :=
  ∃ part, tables.partAt id path = some part ∧ ∀ position, tables.memberAt part position = none

/-- The parts of a type with members have the types of the members. -/
theorem memberAt_eq {id : TypeId} {type : Ty} {members : List TypeId}
    (known : tables.types[id.index]? = some type) (made : type.members? = some members)
    (position : Nat) : tables.memberAt id position = members[position]? := by
  simp [memberAt, known, made]

/-- A type without members has no parts. -/
theorem memberAt_eq_none {id : TypeId} {type : Ty} (known : tables.types[id.index]? = some type)
    (single : type.members? = none) (position : Nat) : tables.memberAt id position = none := by
  simp [memberAt, known, single]

/-- A part that is there is a member of a known type. -/
theorem memberAt_eq_some {id member : TypeId} {position : Nat}
    (there : tables.memberAt id position = some member) :
    ∃ type members, tables.types[id.index]? = some type ∧ type.members? = some members ∧
      members[position]? = some member := by
  simp only [memberAt, Option.bind_eq_bind, Option.bind_eq_some_iff] at there
  obtain ⟨type, known, members, made, there⟩ := there
  exact ⟨type, members, known, made, there⟩

/-- A path leads on from the member at its first position. -/
theorem partAt_cons_eq_some {id part : TypeId} {position : Nat} {path : List Nat} :
    tables.partAt id (position :: path) = some part ↔
      ∃ member, tables.memberAt id position = some member ∧
        tables.partAt member path = some part := by
  simp [partAt, Option.bind_eq_some_iff]

/-- A path may be followed piece by piece. -/
theorem partAt_append {id : TypeId} (first second : List Nat) :
    tables.partAt id (first ++ second) =
      (tables.partAt id first).bind (tables.partAt · second) := by
  induction first generalizing id with
  | nil => rfl
  | cons position first inductionHypothesis =>
    simp only [partAt, List.cons_append, Option.bind_eq_bind, Option.bind_assoc,
      inductionHypothesis]

/-- A path leads to a leaf if it does so from the member at its first position. -/
theorem isLeaf_cons {id : TypeId} {position : Nat} {path : List Nat} :
    tables.IsLeaf id (position :: path) ↔
      ∃ member, tables.memberAt id position = some member ∧ tables.IsLeaf member path := by
  simp only [IsLeaf, partAt_cons_eq_some]
  constructor
  · rintro ⟨part, ⟨member, there, isPart⟩, single⟩
    exact ⟨member, there, part, isPart, single⟩
  · rintro ⟨member, there, part, isPart, single⟩
    exact ⟨part, ⟨member, there, isPart⟩, single⟩

/-- No part is found under a leaf. -/
theorem IsLeaf.eq_of_prefix {id part : TypeId} {leaf path : List Nat}
    (isLeaf : tables.IsLeaf id leaf) (under : leaf <+: path)
    (there : tables.partAt id path = some part) : leaf = path := by
  obtain ⟨rest, rfl⟩ := under
  obtain ⟨last, isPart, single⟩ := isLeaf
  cases rest with
  | nil => simp
  | cons position rest =>
    rw [partAt_append, isPart, Option.bind_some, partAt_cons_eq_some] at there
    obtain ⟨member, isMember, -⟩ := there
    simp [single position] at isMember

/-! ## Parts of a value -/

/-- A value of a type has its parts, each with its type, and another value of that type can take the
place of a part. -/
theorem HasValue.part {id member : TypeId} {value : Value} (typed : tables.HasValue id value)
    {position : Nat} (there : tables.memberAt id position = some member) :
    tables.HasValue member (value.part position) ∧
      ∀ new, (value.setPart position new).part position = new ∧
        (tables.HasValue member new → tables.HasValue id (value.setPart position new)) := by
  obtain ⟨type, members, known, made, isMember⟩ := memberAt_eq_some there
  obtain ⟨parts, rfl, each⟩ := typed.parts known made
  obtain ⟨inside, rfl⟩ := List.getElem?_eq_some_iff.mp isMember
  have also : position < parts.length := each.length_eq ▸ inside
  refine ⟨?_, fun new => ⟨?_, fun isNew => ?_⟩⟩
  · simpa [Value.part, also] using each.get inside also
  · simp [Value.part, Value.setPart, also]
  · refine .of_parts known made (List.forall₂_iff_get.mpr ⟨by simpa using each.length_eq, ?_⟩)
    intro other isOther there
    by_cases same : position = other
    · subst same
      simpa using isNew
    · simpa [List.getElem_set_ne same] using each.get isOther (by simpa using there)

/-- What is read along a path is a value of the type that the path leads to. -/
theorem HasValue.read {id part : TypeId} {value : Value} (typed : tables.HasValue id value)
    {path : List Nat} (there : tables.partAt id path = some part) :
    tables.HasValue part (value.read path) := by
  induction path generalizing id value with
  | nil =>
    obtain rfl := Option.some.inj there
    exact typed
  | cons position path inductionHypothesis =>
    obtain ⟨member, isMember, there⟩ := partAt_cons_eq_some.mp there
    exact inductionHypothesis (typed.part isMember).1 there

/-- Writing a value of the right type keeps the type of the whole. -/
theorem HasValue.write {id part : TypeId} {value new : Value} (typed : tables.HasValue id value)
    {path : List Nat} (there : tables.partAt id path = some part)
    (isNew : tables.HasValue part new) : tables.HasValue id (value.write path new) := by
  induction path generalizing id value with
  | nil =>
    obtain rfl := Option.some.inj there
    exact isNew
  | cons position path inductionHypothesis =>
    obtain ⟨member, isMember, there⟩ := partAt_cons_eq_some.mp there
    obtain ⟨isPart, sets⟩ := typed.part isMember
    exact (sets _).2 (inductionHypothesis isPart there)

/-- What was written is found again. -/
theorem HasValue.read_write {id part : TypeId} {value : Value} (typed : tables.HasValue id value)
    {path : List Nat} (there : tables.partAt id path = some part) (new : Value)
    (rest : List Nat) : (value.write path new).read (path ++ rest) = new.read rest := by
  induction path generalizing id value with
  | nil => rfl
  | cons position path inductionHypothesis =>
    obtain ⟨member, isMember, there⟩ := partAt_cons_eq_some.mp there
    obtain ⟨isPart, sets⟩ := typed.part isMember
    rw [Value.write_cons, List.cons_append, Value.read_cons, (sets _).1]
    exact inductionHypothesis isPart there

/-- Values of a type that agree on the leaves are the same. -/
theorem HasValue.ext {id : TypeId} {one other : Value} (typed : tables.HasValue id one)
    (also : tables.HasValue id other)
    (agree : ∀ leaf, tables.IsLeaf id leaf → one.read leaf = other.read leaf) : one = other := by
  induction typed generalizing other with
  | scalar known => exact agree [] ⟨_, rfl, memberAt_eq_none known rfl⟩
  | handle known isOpaque =>
    exact agree [] ⟨_, rfl, memberAt_eq_none known (Ty.members?_of_isOpaque isOpaque)⟩
  | @aggregate id type members parts known made count each inductionHypothesis =>
    obtain ⟨others, rfl, eachOther⟩ := also.parts known made
    have sameCount := count.symm.trans eachOther.length_eq
    rw [Value.aggregate.injEq]
    refine List.ext_getElem sameCount fun position inside there => ?_
    have isMember := List.getElem?_eq_getElem (count ▸ inside : position < members.length)
    refine inductionHypothesis position _ _ isMember (List.getElem?_eq_getElem inside)
      (eachOther.get (count ▸ inside) there) fun leaf isLeaf => ?_
    have whole := agree (position :: leaf) (isLeaf_cons.mpr
      ⟨_, (memberAt_eq known made position).trans isMember, isLeaf⟩)
    simpa [Value.part, inside, there] using whole

end Tables

/-! ## Rebuilding a value from its parts -/

/-- The value with the parts of another one along some paths. -/
def Value.rebuild (source : Value) (paths : List (List Nat)) (value : Value) : Value :=
  paths.foldl (fun value path => value.write path (source.read path)) value

namespace Tables

variable {tables before after : Tables}

/-- Writing a part of the source to where it belongs makes the leaves of the part those of the
source and keeps all others. -/
theorem IsLeaf.read_write {id part : TypeId} {leaf path : List Nat}
    (isLeaf : tables.IsLeaf id leaf) (there : tables.partAt id path = some part)
    {source value : Value} (typed : tables.HasValue id value) :
    (value.write path (source.read path)).read leaf =
      if path <+: leaf then source.read leaf else value.read leaf := by
  split
  case isTrue under =>
    obtain ⟨rest, rfl⟩ := under
    rw [typed.read_write there, Value.read_append]
  case isFalse elsewhere =>
    refine Value.read_write_of_apart value _ ⟨elsewhere, fun above => elsewhere ?_⟩
    exact isLeaf.eq_of_prefix above there ▸ List.prefix_rfl

/-- A leaf that agrees with the source, or that is written on the way, agrees at the end. -/
theorem HasValue.rebuild_agrees {id : TypeId} {source : Value} (typed : tables.HasValue id source)
    {paths : List (List Nat)} (parts : ∀ path ∈ paths, ∃ part, tables.partAt id path = some part)
    {value : Value} (also : tables.HasValue id value) :
    tables.HasValue id (source.rebuild paths value) ∧ ∀ leaf, tables.IsLeaf id leaf →
      (value.read leaf = source.read leaf ∨ ∃ path ∈ paths, path <+: leaf) →
        (source.rebuild paths value).read leaf = source.read leaf := by
  induction paths generalizing value with
  | nil => exact ⟨also, fun leaf _ reached => reached.resolve_right (by simp)⟩
  | cons path paths inductionHypothesis =>
    rw [List.forall_mem_cons] at parts
    obtain ⟨part, there⟩ := parts.1
    obtain ⟨isTyped, agrees⟩ :=
      inductionHypothesis parts.2 (also.write there (typed.read there))
    refine ⟨isTyped, fun leaf isLeaf reached => agrees leaf isLeaf ?_⟩
    rw [isLeaf.read_write there also]
    by_cases under : path <+: leaf
    · simp [under]
    · simpa [under] using reached

/-! ## Coverage -/

/-- The paths lead to parts of the type, never to the same part twice, and every leaf is reached. -/
structure CoveredOnce (tables : Tables) (id : TypeId) (paths : List (List Nat)) : Prop where
  parts : ∀ path ∈ paths, ∃ part, tables.partAt id path = some part
  apart : paths.Pairwise Apart
  all : ∀ leaf, tables.IsLeaf id leaf → ∃ path ∈ paths, path <+: leaf

/-- Writing the parts of a value along such paths gives the value, whatever was there before. -/
theorem CoveredOnce.rebuild {id : TypeId} {paths : List (List Nat)}
    (covered : tables.CoveredOnce id paths) {source value : Value}
    (typed : tables.HasValue id source) (also : tables.HasValue id value) :
    source.rebuild paths value = source := by
  obtain ⟨isTyped, agrees⟩ := typed.rebuild_agrees covered.parts also
  exact isTyped.ext typed fun leaf isLeaf => agrees leaf isLeaf (.inr (covered.all leaf isLeaf))

/-- The order of the paths does not matter. -/
theorem CoveredOnce.perm {id : TypeId} {paths others : List (List Nat)}
    (covered : tables.CoveredOnce id paths) (same : others.Perm paths) :
    tables.CoveredOnce id others where
  parts path member := covered.parts path (same.mem_iff.mp member)
  apart := (same.pairwise_iff Apart.symm).mpr covered.apart
  all leaf isLeaf := by
    obtain ⟨path, member, under⟩ := covered.all leaf isLeaf
    exact ⟨path, same.mem_iff.mpr member, under⟩

/-- A value is one of its parts. -/
theorem coveredOnce_whole (tables : Tables) (id : TypeId) : tables.CoveredOnce id [[]] where
  parts path member := by
    obtain rfl := List.mem_singleton.mp member
    exact ⟨id, rfl⟩
  apart := List.pairwise_singleton _ _
  all leaf _ := ⟨[], List.mem_singleton.mpr rfl, List.nil_prefix⟩

/-- The paths cover some members in the same way. The members stand at the positions from `first`
on. -/
structure CoveredFrom (tables : Tables) (members : List TypeId) (first : Nat)
    (paths : List (List Nat)) : Prop where
  parts : ∀ path ∈ paths, ∃ offset member rest part, path = (first + offset) :: rest ∧
    members[offset]? = some member ∧ tables.partAt member rest = some part
  apart : paths.Pairwise Apart
  all : ∀ offset member, members[offset]? = some member → ∀ leaf, tables.IsLeaf member leaf →
    ∃ path ∈ paths, path <+: (first + offset) :: leaf

/-- No members are covered by no paths. -/
theorem coveredFrom_nil (tables : Tables) (first : Nat) : tables.CoveredFrom [] first [] where
  parts := by simp
  apart := .nil
  all := by simp

/-- Paths into the first member and into the others cover all of them together. -/
theorem CoveredFrom.cons {member : TypeId} {members : List TypeId} {first : Nat}
    {paths others : List (List Nat)} (head : tables.CoveredOnce member paths)
    (tail : tables.CoveredFrom members (first + 1) others) :
    tables.CoveredFrom (member :: members) first (paths.map (first :: ·) ++ others) where
  parts path own := by
    rcases List.mem_append.mp own with here | later
    · obtain ⟨rest, inside, rfl⟩ := List.mem_map.mp here
      obtain ⟨part, there⟩ := head.parts rest inside
      exact ⟨0, member, rest, part, rfl, rfl, there⟩
    · obtain ⟨offset, other, rest, part, rfl, isMember, there⟩ := tail.parts path later
      exact ⟨offset + 1, other, rest, part, by rw [Nat.add_assoc, Nat.add_comm 1], isMember, there⟩
  apart := by
    refine List.pairwise_append.mpr ⟨?_, tail.apart, fun path here other later => ?_⟩
    · rw [List.pairwise_map]
      exact head.apart.imp fun apart => apart_cons.mpr fun _ => apart
    · -- What comes later starts with a greater position.
      obtain ⟨rest, -, rfl⟩ := List.mem_map.mp here
      obtain ⟨offset, -, otherRest, -, rfl, -⟩ := tail.parts other later
      exact apart_cons.mpr fun same => by omega
  all offset other isMember leaf isLeaf := by
    cases offset with
    | zero =>
      obtain rfl := Option.some.inj isMember
      obtain ⟨path, own, under⟩ := head.all leaf isLeaf
      exact ⟨first :: path, List.mem_append_left _ (List.mem_map_of_mem own),
        List.cons_prefix_cons.mpr ⟨rfl, under⟩⟩
    | succ offset =>
      obtain ⟨path, own, under⟩ := tail.all offset other isMember leaf isLeaf
      rw [Nat.add_assoc, Nat.add_comm 1] at under
      exact ⟨path, List.mem_append_right _ own, under⟩

/-- What covers all members covers the type that is made of them. -/
theorem CoveredFrom.once {id : TypeId} {type : Ty} {members : List TypeId}
    {paths : List (List Nat)} (covered : tables.CoveredFrom members 0 paths)
    (known : tables.types[id.index]? = some type) (made : type.members? = some members)
    (some : members ≠ []) : tables.CoveredOnce id paths where
  parts path own := by
    obtain ⟨offset, member, rest, part, rfl, isMember, there⟩ := covered.parts path own
    rw [Nat.zero_add]
    exact ⟨part, partAt_cons_eq_some.mpr
      ⟨member, (memberAt_eq known made offset).trans isMember, there⟩⟩
  apart := covered.apart
  all leaf isLeaf := by
    cases leaf with
    | nil =>
      obtain ⟨part, isPart, single⟩ := isLeaf
      obtain rfl := Option.some.inj isPart
      have first := (memberAt_eq known made 0).symm.trans (single 0)
      exact absurd (by simpa using first) some
    | cons position leaf =>
      obtain ⟨member, isMember, isLeaf⟩ := isLeaf_cons.mp isLeaf
      rw [memberAt_eq known made] at isMember
      simpa using covered.all position member isMember leaf isLeaf

/-- The elements of an array are covered like one of them. -/
theorem CoveredOnce.replicate {element : TypeId} {paths : List (List Nat)}
    (covered : tables.CoveredOnce element paths) (size first : Nat) :
    tables.CoveredFrom (.replicate size element) first
      ((List.range' first size).flatMap fun position => paths.map (position :: ·)) := by
  induction size generalizing first with
  | zero => exact coveredFrom_nil tables first
  | succ size inductionHypothesis =>
    rw [List.replicate_succ, List.range'_succ, List.flatMap_cons]
    exact .cons covered (inductionHypothesis (first + 1))

/-- An array is covered by what covers all its elements. -/
theorem HasShape.coveredOnce {type base : TypeId} {extents : List Nat}
    (shape : tables.HasShape type extents base) (filled : 0 ∉ extents) {deeper : List (List Nat)}
    (covered : tables.CoveredOnce base deeper) :
    tables.CoveredOnce type
      ((positions extents).flatMap fun position => deeper.map (position ++ ·)) := by
  induction shape with
  | base => simpa [positions] using covered
  | @array id element base size extents known _ inductionHypothesis =>
    rw [List.mem_cons, not_or] at filled
    have elements := (inductionHypothesis filled.2 covered).replicate size 0
    have nested :
        (positions (size :: extents)).flatMap (fun position => deeper.map (position ++ ·)) =
          (List.range' 0 size).flatMap fun first =>
            ((positions extents).flatMap fun position => deeper.map (position ++ ·)).map
              (first :: ·) := by
      simp [positions, List.flatMap_assoc, List.flatMap_map, List.map_flatMap, Function.comp_def,
        List.range_eq_range']
    rw [nested]
    exact elements.once known rfl (by simpa using Ne.symm filled.1)

end Tables

end ShaderPipeline
