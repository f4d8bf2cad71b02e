import ShaderPipeline.Proofs.Gathering
import ShaderPipeline.Proofs.Tree
import ShaderPipeline.Typing

/-!
# Types under a substitution

Lowering replaces expressions by others of nearly the same type. `Stands` says
how near: the type is the same, or the old one was opaque, so that nothing could
be selected from it, or it was an array of opaque ones. A substitution that
replaces variables and calls by such expressions does so with every expression.
-/

namespace ShaderPipeline

namespace Tables

variable {old new tables : Tables} {type other : TypeId} {swaps : Prop}

/-! ## The type of an expression -/

section TypeOf

attribute [local simp] typeOf

/-- The type of a mention is that of its variable. -/
theorem typeOf_var_iff {id : VariableId} :
    tables.typeOf (.var id) = .ok type ↔
      ∃ entry, tables.vars[id.index]? = some entry ∧ entry.type = type := by
  simp

/-- The type of a field is the one that its struct gives it. -/
theorem typeOf_field_iff {base : Expr} {position : Nat} :
    tables.typeOf (.field base position) = .ok type ↔
      ∃ struct name fields field, tables.typeOf base = .ok struct ∧
        tables.types[struct.index]? = some (.struct name fields) ∧
        fields[position]? = some field ∧ field.type = type := by
  simp only [typeOf, fieldAt, Outcome.bind_eq_ok_iff, fieldsOf_eq_ok_iff, Outcome.pure_eq_ok,
    Except.ok.injEq, found_eq_ok_iff]
  constructor
  · rintro ⟨struct, typed, field, ⟨fields, ⟨name, known⟩, there⟩, same⟩
    exact ⟨struct, name, fields, field, typed, known, there, same⟩
  · rintro ⟨struct, name, fields, field, typed, known, there, same⟩
    exact ⟨struct, typed, field, ⟨fields, ⟨name, known⟩, there⟩, same⟩

/-- The type of an element is the one that the type of its base has elements of. -/
theorem typeOf_index_iff {base position : Expr} :
    tables.typeOf (.index base position) = .ok type ↔
      ∃ array entry, tables.typeOf base = .ok array ∧
        tables.types[array.index]? = some entry ∧ entry.element? = some type := by
  simp only [typeOf, Outcome.bind_eq_ok_iff, typeAt_eq_ok_iff]
  constructor
  · rintro ⟨array, typed, entry, known, element⟩
    cases isElement : entry.element? with
    | none => simp [isElement] at element
    | some part =>
      obtain rfl : part = type := by simpa [isElement] using element
      exact ⟨array, entry, typed, known, isElement⟩
  · rintro ⟨array, entry, typed, known, element⟩
    exact ⟨array, typed, entry, known, by simp [element]⟩

/-- The type of a call is what the function returns. -/
theorem typeOf_call_iff {callee : FunctionId} {args : List Expr} :
    tables.typeOf (.call callee args) = .ok type ↔
      ∃ function, tables.functions[callee.index]? = some function ∧ function.returnType = type := by
  simp

/-- The type that an address gets. -/
def addressType (tables : Tables) (type : TypeId) : TypeId :=
  (tables.find? (.pointer type)).getD type

/-- The type of an address is the pointer to its operand's type, where there is one. -/
theorem typeOf_addressOf_iff {operand : Expr} :
    tables.typeOf (.addressOf operand) = .ok type ↔
      ∃ pointee, tables.typeOf operand = .ok pointee ∧ tables.addressType pointee = type := by
  simp [addressType]

end TypeOf

/-! ## Pointers -/

/-- Every old type is there under its identity. -/
def TypesStay (old new : Tables) : Prop :=
  ∀ {index : Nat} {type : Ty}, old.types[index]? = some type → new.types[index]? = some type

/-- The first identity of a type stays the first. -/
theorem TypesStay.find? (stay : old.TypesStay new) {key : TypeKey}
    (found : old.find? key = some type) : new.find? key = some type := by
  rw [Tables.find?, SharedTypes.lookup_eq] at found ⊢
  obtain ⟨index, there, rfl⟩ := Option.map_eq_some_iff.mp found
  obtain ⟨inside, same, first⟩ := Array.findIdx?_eq_some_iff_getElem.mp there
  have keeps {position : Nat} (before : position < old.types.size) :
      ∃ after : position < new.types.size, new.types[position] = old.types[position] :=
    Array.getElem?_eq_some_iff.mp (stay (Array.getElem?_eq_getElem before))
  obtain ⟨insideNew, sameNew⟩ := keeps inside
  refine Option.map_eq_some_iff.mpr ⟨index, ?_, rfl⟩
  refine Array.findIdx?_eq_some_iff_getElem.mpr ⟨insideNew, by rw [sameNew]; exact same, ?_⟩
  intro position before
  obtain ⟨_, sameThere⟩ := keeps (Nat.lt_trans before inside)
  rw [sameThere]
  exact first position before

/-- Nothing can be selected from a value of the type, and it does not mix with vectors. -/
def Opaque (tables : Tables) (type : TypeId) : Prop :=
  ∀ entry, tables.types[type.index]? = some entry →
    entry.isScalar = false ∧ entry.fields? = none ∧ entry.element? = none

/-- A known type that is not a scalar. -/
def Composite (tables : Tables) (type : TypeId) : Prop :=
  ∃ entry, tables.types[type.index]? = some entry ∧ entry.isScalar = false

/-- The second type stands for the first. If samplers are swapped, anything that is no scalar may
stand for them. -/
inductive Stands (swaps : Prop) (old new : Tables) : TypeId → TypeId → Prop where
  | same (type : TypeId) : Stands swaps old new type type
  | sealed {type other : TypeId} (closed : old.Opaque type)
      (unpointed : (swaps ∧ old.isSampler type = .ok true) ∨ old.find? (.pointer type) = none)
      (composite : (swaps ∧ new.Composite other) ∨
        ∃ pointee, new.types[other.index]? = some (.pointer pointee)) : Stands swaps old new type other
  | samplers {type element other part : TypeId} {size : Nat} {entry : Ty} (swapped : swaps)
      (array : old.types[type.index]? = some (.array element size))
      (sampler : old.isSampler type = .ok true) (elementSampler : old.isSampler element = .ok true)
      (closed : old.Opaque element) (known : new.types[other.index]? = some entry)
      (notScalar : entry.isScalar = false) (element : entry.element? = some part)
      (composite : new.Composite part) : Stands swaps old new type other

/-- If the type is known at all, it is that of a texture or of a sampling state. -/
def Handle (tables : Tables) (type : TypeId) : Prop :=
  ∀ entry, tables.types[type.index]? = some entry →
    entry = .sampler ∨ ∃ kind, entry = .texture kind

/-- Nothing can be selected from a texture or a sampling state. -/
theorem Handle.isOpaque (handle : tables.Handle type) : tables.Opaque type := by
  intro entry known
  rcases handle entry known with rfl | ⟨kind, rfl⟩
  · exact ⟨rfl, rfl, rfl⟩
  · exact ⟨rfl, rfl, rfl⟩

/-- New pointers lead to textures and sampling states only. -/
def Quiet (old new : Tables) : Prop :=
  ∀ type pointer, old.find? (.pointer type) = none → new.find? (.pointer type) = some pointer →
    old.Handle type

/-- Types that are made without variables bring in no other pointers than those of textures and
sampling states. -/
theorem Grows.quiet {sizes : Nat → Prop} (grows : Grows sizes old new) : Quiet old new := by
  intro type pointer missing found entry known
  have there := find?_known found
  rcases grows.cases there with before | ⟨-, -, novel⟩
  · have present := find?_isSome _ before
    simp [missing] at present
  · have after := grows.types known
    rcases novel with sampler | ⟨kind, texture⟩
    · exact .inl (by simpa [after] using sampler)
    · exact .inr ⟨kind, by simpa [after] using texture⟩

/-- No address is taken of a sampler that has a pointer type. -/
def Addressable (tables : Tables) (type : TypeId) : Prop :=
  tables.isSampler type = .ok true → tables.find? (.pointer type) = none

/-- The address of what stands for a value stands for the value's address. -/
theorem Stands.addressOf (stay : old.TypesStay new) (quiet : Quiet old new)
    (stands : Stands swaps old new type other) (addressable : swaps → old.Addressable type) :
    Stands swaps old new (old.addressType type) (new.addressType other) := by
  cases stands with
  | same =>
    unfold addressType
    cases missing : old.find? (.pointer type) with
    | some pointer => rw [stay.find? missing]; exact .same pointer
    | none =>
      cases found : new.find? (.pointer type) with
      | none => exact .same type
      | some pointer =>
        exact .sealed (quiet type pointer missing found).isOpaque (.inr missing)
          (.inr ⟨type, find?_known found⟩)
  | sealed closed unpointed known =>
    have missing : old.find? (.pointer type) = none :=
      unpointed.elim (fun sampler => addressable sampler.1 sampler.2) id
    have unchanged : old.addressType type = type := by simp [addressType, missing]
    rw [unchanged]
    refine .sealed closed unpointed ?_
    unfold addressType
    cases found : new.find? (.pointer other) with
    | none => exact known
    | some pointer => exact .inr ⟨other, find?_known found⟩
  | @samplers _ _ _ _ entry swapped array sampler elementSampler closed known notScalar isElement
    part =>
    have unchanged : old.addressType type = type := by
      simp [addressType, addressable swapped sampler]
    rw [unchanged]
    unfold addressType
    cases found : new.find? (.pointer other) with
    | none =>
      exact .samplers swapped array sampler elementSampler closed known notScalar isElement part
    | some pointer =>
      exact .samplers swapped array sampler elementSampler closed (find?_known found) rfl rfl
        ⟨entry, known, notScalar⟩

/-- A type and what stands for it are both scalar or both not. -/
theorem Stands.isScalar (stay : old.TypesStay new) (stands : Stands swaps old new type other)
    {entry : Ty} (known : old.types[type.index]? = some entry) :
    ∃ otherEntry, new.types[other.index]? = some otherEntry ∧
      otherEntry.isScalar = entry.isScalar := by
  cases stands with
  | same => exact ⟨entry, stay known, rfl⟩
  | sealed closed _ composite =>
    obtain ⟨otherEntry, otherKnown, plain⟩ : new.Composite other :=
      composite.elim And.right fun ⟨pointee, pointer⟩ => ⟨_, pointer, rfl⟩
    exact ⟨otherEntry, otherKnown, plain.trans (closed entry known).1.symm⟩
  | samplers _ array _ _ _ otherKnown notScalar =>
    obtain rfl : entry = _ := by simpa [known] using array
    exact ⟨_, otherKnown, notScalar⟩

/-- What stands for a struct is the struct itself. -/
theorem Stands.struct (stands : Stands swaps old new type other) {name : Name} {fields : List Field}
    (known : old.types[type.index]? = some (.struct name fields)) : other = type := by
  cases stands with
  | same => rfl
  | sealed closed => simpa [Ty.fields?] using (closed _ known).2.1
  | samplers _ array => simp [known] at array

/-- The elements of what stands for a type stand for its elements. -/
theorem Stands.element (stay : old.TypesStay new) (stands : Stands swaps old new type other)
    {entry : Ty} {element : TypeId} (known : old.types[type.index]? = some entry)
    (isElement : entry.element? = some element) : ∃ otherEntry part,
      new.types[other.index]? = some otherEntry ∧ otherEntry.element? = some part ∧
        Stands swaps old new element part := by
  cases stands with
  | same => exact ⟨entry, element, stay known, isElement, .same element⟩
  | sealed closed => simp [(closed entry known).2.2] at isElement
  | samplers swapped array _ elementSampler closed otherKnown _ isPart composite =>
    obtain rfl : entry = _ := by simpa [known] using array
    obtain rfl : _ = element := by simpa [Ty.element?] using isElement
    exact ⟨_, _, otherKnown, isPart, .sealed closed (.inl ⟨swapped, elementSampler⟩)
      (.inl ⟨swapped, composite⟩)⟩

/-! ## Substitutions -/

/-- A substitution replaces certain variables and calls by expressions of a type that is near the
old one, and what can be done with a type can be done with every type near it. -/
structure Tracks (near : TypeId → TypeId → Prop) (old new : Tables) (change : Substitution)
    (names : VariableId → Prop) (callees : FunctionId → Prop) (operands : Expr → Prop) : Prop where
  stay : old.TypesStay new
  same : ∀ type, near type type
  struct : ∀ {type other : TypeId} {name : Name} {fields : List Field}, near type other →
    old.types[type.index]? = some (.struct name fields) → other = type
  isScalar : ∀ {type other : TypeId} {entry : Ty}, near type other →
    old.types[type.index]? = some entry → ∃ otherEntry,
      new.types[other.index]? = some otherEntry ∧ otherEntry.isScalar = entry.isScalar
  element : ∀ {type other element : TypeId} {entry : Ty}, near type other →
    old.types[type.index]? = some entry → entry.element? = some element → ∃ otherEntry part,
      new.types[other.index]? = some otherEntry ∧ otherEntry.element? = some part ∧
        near element part
  addressOf : ∀ {operand : Expr} {type other : TypeId}, operands operand →
    old.typeOf operand = .ok type → near type other →
      near (old.addressType type) (new.addressType other)
  symbols : ∀ {id : VariableId} {entry : Variable}, names id →
    old.vars[id.index]? = some entry →
      ∃ type, new.typeOf (change.symbol id) = .ok type ∧ near entry.type type
  calls : ∀ {callee : FunctionId} {function : Function} {args : List Expr}, callees callee →
    old.functions[callee.index]? = some function →
      ∃ type, new.typeOf (change.call callee args) = .ok type ∧ near function.returnType type

/-- The type of the substituted expression is near that of the old one. -/
theorem Tracks.typeOf {near : TypeId → TypeId → Prop} {change : Substitution}
    {names : VariableId → Prop} {callees : FunctionId → Prop} {operands : Expr → Prop}
    (tracks : Tracks near old new change names callees operands) {expr : Expr}
    (uses : expr.Every (Expr.Uses names callees operands)) (typed : old.typeOf expr = .ok type) :
    ∃ result, new.typeOf (expr.subst change) = .ok result ∧ near type result := by
  induction expr generalizing type with
  | const value => exact ⟨type, typed, tracks.same type⟩
  | var id =>
    obtain ⟨entry, known, rfl⟩ := typeOf_var_iff.mp typed
    exact tracks.symbols (Expr.every_var.mp uses) known
  | field base position inBase =>
    obtain ⟨struct, name, fields, field, baseTyped, known, there, rfl⟩ := typeOf_field_iff.mp typed
    obtain ⟨result, resultTyped, isNear⟩ := inBase (Expr.every_field.mp uses).2 baseTyped
    obtain rfl := tracks.struct isNear known
    exact ⟨field.type, typeOf_field_iff.mpr ⟨result, name, fields, field, resultTyped,
      tracks.stay known, there, rfl⟩, tracks.same _⟩
  | index base position inBase _ =>
    obtain ⟨array, entry, baseTyped, known, isElement⟩ := typeOf_index_iff.mp typed
    obtain ⟨result, resultTyped, isNear⟩ := inBase (Expr.every_index.mp uses).2.1 baseTyped
    obtain ⟨otherEntry, part, otherKnown, isPart, partNear⟩ := tracks.element isNear known isElement
    exact ⟨part, typeOf_index_iff.mpr ⟨result, otherEntry, resultTyped, otherKnown, isPart⟩,
      partNear⟩
  | unary op operand inOperand => exact inOperand (Expr.every_unary.mp uses).2 typed
  | binary op left right inLeft inRight =>
    obtain ⟨-, usesLeft, usesRight⟩ := Expr.every_binary.mp uses
    simp only [Tables.typeOf, Expr.subst] at typed ⊢
    by_cases truth : op.givesBool = true
    · rw [if_pos truth] at typed ⊢
      exact ⟨type, typed, tracks.same type⟩
    · rw [if_neg truth] at typed ⊢
      simp only [Outcome.bind_eq_ok_iff, typeAt_eq_ok_iff] at typed
      obtain ⟨leftType, leftTyped, entry, known, rest⟩ := typed
      obtain ⟨result, resultTyped, isNear⟩ := inLeft usesLeft leftTyped
      obtain ⟨otherEntry, otherKnown, sameKind⟩ := tracks.isScalar isNear known
      have otherOk : new.typeAt result = .ok otherEntry := typeAt_eq_ok_iff.mpr otherKnown
      simp only [resultTyped, otherOk, Outcome.ok_bind, sameKind]
      by_cases scalar : entry.isScalar = true
      · rw [if_pos scalar] at rest ⊢
        exact inRight usesRight rest
      · rw [if_neg scalar] at rest ⊢
        obtain rfl : leftType = type := by simpa using rest
        exact ⟨result, rfl, isNear⟩
  | construct other args => exact ⟨type, typed, tracks.same type⟩
  | call callee args =>
    obtain ⟨function, known, rfl⟩ := typeOf_call_iff.mp typed
    exact tracks.calls (Expr.every_call.mp uses).1 known
  | sample => exact ⟨type, typed, tracks.same type⟩
  | addressOf operand inOperand =>
    obtain ⟨usesHere, usesOperand⟩ := Expr.every_addressOf.mp uses
    obtain ⟨pointee, operandTyped, rfl⟩ := typeOf_addressOf_iff.mp typed
    obtain ⟨result, resultTyped, isNear⟩ := inOperand usesOperand operandTyped
    exact ⟨_, typeOf_addressOf_iff.mpr ⟨result, resultTyped, rfl⟩,
      tracks.addressOf usesHere operandTyped isNear⟩

/-- A substitution replaces certain variables and calls by expressions that stand for them. -/
structure Carries (swaps : Prop) (old new : Tables) (change : Substitution) (names : VariableId → Prop)
    (callees : FunctionId → Prop) : Prop where
  stay : old.TypesStay new
  quiet : Quiet old new
  symbols : ∀ {id : VariableId} {entry : Variable}, names id →
    old.vars[id.index]? = some entry →
      ∃ type, new.typeOf (change.symbol id) = .ok type ∧ Stands swaps old new entry.type type
  calls : ∀ {callee : FunctionId} {function : Function} {args : List Expr}, callees callee →
    old.functions[callee.index]? = some function →
      ∃ type, new.typeOf (change.call callee args) = .ok type ∧
        Stands swaps old new function.returnType type

/-- What a part of an expression has to keep for a substitution. -/
def Allows (old : Tables) (swaps : Prop) (names : VariableId → Prop)
    (callees : FunctionId → Prop) : Expr → Prop :=
  Expr.Uses names callees fun operand =>
    swaps → ∀ type, old.typeOf operand = .ok type → old.Addressable type

/-- The substituted expression stands for the old one. -/
theorem Carries.typeOf {change : Substitution} {names : VariableId → Prop}
    {callees : FunctionId → Prop} (carries : Carries swaps old new change names callees) {expr : Expr}
    (keeps : expr.Every (old.Allows swaps names callees)) (typed : old.typeOf expr = .ok type) :
    ∃ result, new.typeOf (expr.subst change) = .ok result ∧ Stands swaps old new type result := by
  have tracks : Tracks (Stands swaps old new) old new change names callees fun operand =>
      swaps → ∀ type, old.typeOf operand = .ok type → old.Addressable type := {
    stay := carries.stay
    same := .same
    struct := fun stands known => stands.struct known
    isScalar := fun stands known => stands.isScalar carries.stay known
    element := fun stands known isElement => stands.element carries.stay known isElement
    addressOf := fun addressable operandTyped stands =>
      stands.addressOf carries.stay carries.quiet fun swapped => addressable swapped _ operandTyped
    symbols := carries.symbols
    calls := carries.calls }
  exact tracks.typeOf keeps typed

end Tables

end ShaderPipeline
