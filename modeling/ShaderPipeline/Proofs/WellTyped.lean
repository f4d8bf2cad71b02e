import ShaderPipeline.Proofs.Arguments
import ShaderPipeline.Proofs.Statements

/-!
# Well-typed programs

A program is well typed if every argument of a call has the type of its parameter,
both sides of every assignment have the same type, every initial value has the
type of its variable, and every returned value has the return type of the
function. Validity asks for none of this.

What a category does to the statements of a body is a substitution, a replacement
of bare returns and pruning, and each of them keeps the statements well typed on
its own.
-/

namespace ShaderPipeline

namespace Tables

/-- The expression has the type. -/
def HasType (tables : Tables) (expr : Expr) (type : TypeId) : Prop := tables.typeOf expr = .ok type

/-- The expression has the type of the variable. -/
def HasTypeOf (tables : Tables) (expr : Expr) (id : VariableId) : Prop :=
  ∃ entry, tables.vars[id.index]? = some entry ∧ tables.HasType expr entry.type

end Tables

/-- What a statement stores or returns has the type of the place that it goes to. -/
def Stmt.Typed (tables : Tables) (returns : TypeId) : Stmt → Prop
  | declare id initial => ∀ value ∈ initial, tables.HasTypeOf value id
  | assign target value => ∃ type, tables.HasType target type ∧ tables.HasType value type
  | ret value => ∀ returned ∈ value, tables.HasType returned returns
  | _ => True

/-- All calls, statements and initial values of a program are well typed. -/
structure Program.WellTyped (program : Program) : Prop where
  calls : ∀ definition ∈ program.definitions,
    Block.Every (Expr.Calling (program.tables.Passes program.tables.HasType)) definition.2
  stmts : ∀ definition ∈ program.definitions, ∃ function,
    program.tables.functions[definition.1.index]? = some function ∧
      Block.Each (Stmt.Typed program.tables function.returnType) definition.2
  initials : ∀ {index : Nat} {entry : Variable} {value : Constant},
    program.tables.vars[index]? = some entry → entry.initializer = some value →
      value.type = entry.type

namespace Stmt

variable {before after : Tables} {returns other : TypeId} {stmt : Stmt} {change : Substitution}

/-- A substitution that keeps the types of all expressions keeps a statement well typed. -/
theorem Typed.subst (typed : stmt.Typed before returns) (evolves : before.Evolves after)
    (carries : ∀ expr ∈ stmt.ownExprs, ∀ type, before.HasType expr type →
      after.HasType (expr.subst change) type) : (stmt.subst change).Typed after returns := by
  cases stmt with
  | declare id initial =>
    intro value member
    obtain ⟨source, own, rfl⟩ := Option.map_eq_some_iff.mp member
    obtain ⟨entry, known, hasType⟩ := typed source own
    obtain ⟨gone, there⟩ := evolves.vars known
    exact ⟨_, there, by simpa using carries source (by simp [ownExprs, own]) _ hasType⟩
  | assign target value =>
    obtain ⟨type, targetTyped, valueTyped⟩ := typed
    exact ⟨type, carries target (by simp [ownExprs]) _ targetTyped,
      carries value (by simp [ownExprs]) _ valueTyped⟩
  | ret value =>
    intro returned member
    obtain ⟨source, own, rfl⟩ := Option.map_eq_some_iff.mp member
    exact carries source (by simp [ownExprs, own]) _ (typed source own)
  | eval | ifThen | ifElse | loop | block | brk | cont | discard => trivial

/-- A statement with blocks in it stores nothing itself. -/
theorem typed_of_inner (nested : stmt.inner ≠ []) : stmt.Typed before returns := by
  cases stmt with
  | ifThen | ifElse | loop | block => trivial
  | declare | eval | assign | ret | brk | cont | discard => exact absurd rfl nested

@[simp] theorem typed_retire {tables : Tables} {gone : VariableId → Bool} :
    stmt.Typed (tables.retire gone) returns ↔ stmt.Typed tables returns := by
  have sameVariable (value : Expr) (id : VariableId) :
      (tables.retire gone).HasTypeOf value id ↔ tables.HasTypeOf value id := by
    simp [Tables.HasTypeOf, Tables.HasType, Tables.typeOf_retire, Tables.getElem?_retire]
  cases stmt with
  | declare id initial => simp [Typed, sameVariable]
  | assign target value => simp [Typed, Tables.HasType, Tables.typeOf_retire]
  | ret value => simp [Typed, Tables.HasType, Tables.typeOf_retire]
  | eval | ifThen | ifElse | loop | block | brk | cont | discard => exact Iff.rfl

/-- The statement returns no value. -/
def Bare (stmt : Stmt) : Prop := ∀ value, stmt ≠ .ret (some value)

/-- A statement that returns no value returns none after a substitution. -/
theorem Bare.subst (bare : stmt.Bare) (change : Substitution) : (stmt.subst change).Bare := by
  cases stmt with
  | ret value =>
    cases value with
    | none => simp [Bare, Stmt.subst]
    | some value => exact absurd rfl (bare value)
  | declare | eval | assign | ifThen | ifElse | loop | block | brk | cont | discard =>
    simp [Bare, Stmt.subst]

end Stmt

/-- A body that returns no values may return values of any type in place of its bare returns. -/
theorem Block.Each.typed_leaving {tables : Tables} {returns other : TypeId} {body epilogue : Block}
    (each : body.Each fun stmt => stmt.Typed tables returns ∧ stmt.Bare)
    (ends : epilogue.Each (Stmt.Typed tables other)) :
    Block.Each (Stmt.Typed tables other) (Plan.replaceReturns body epilogue) := by
  rw [Plan.replaceReturns_eq_map]
  refine each.of_map fun stmt typed parts => ?_
  by_cases bare : stmt = .ret none
  · subst bare
    exact ⟨trivial, by simpa [Stmt.leaving, Stmt.inner] using ends⟩
  · refine ⟨?_, ?_⟩
    · cases stmt with
      | ret value =>
        cases value with
        | none => exact absurd rfl bare
        | some value => exact absurd rfl (typed.2 value)
      | declare | assign => exact typed.1
      | eval | ifThen | ifElse | loop | block | brk | cont | discard => trivial
    · rw [Stmt.inner_leaving bare, List.forall_mem_map]
      exact parts

end ShaderPipeline
