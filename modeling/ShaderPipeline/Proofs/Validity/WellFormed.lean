import ShaderPipeline.Proofs.CallChains
import ShaderPipeline.Proofs.Orderly
import ShaderPipeline.Proofs.Statements
import ShaderPipeline.Proofs.Validity.Typing

/-!
# Well-formed programs

What a valid program is, told without an order of checking. The types of
expressions are given by rules, one for every way to get a type; the place of a
statement in a body comes with the variables that statements before it declare,
in its own block or in one around it; every rule speaks about one node of the
tree. The check walks through the tree with a growing list of visible variables,
computes types on its way and stops at the first violation, and it accepts
exactly the well-formed programs.
-/

namespace ShaderPipeline

/-! ## Types by rules -/

/-- The tables give an expression a type. -/
inductive Tables.Ascribes (tables : Tables) : Expr → TypeId → Prop where
  | const (value : Constant) : Ascribes tables (.const value) value.type
  | var {id : VariableId} {entry : Variable} (known : tables.vars[id.index]? = some entry) :
      Ascribes tables (.var id) entry.type
  | field {base : Expr} {position : Nat} {struct : TypeId} {name : Name} {fields : List Field}
      {field : Field} (ofBase : Ascribes tables base struct)
      (known : tables.types[struct.index]? = some (.struct name fields))
      (there : fields[position]? = some field) : Ascribes tables (.field base position) field.type
  | index {base position : Expr} {whole element : TypeId} {type : Ty}
      (ofBase : Ascribes tables base whole) (known : tables.types[whole.index]? = some type)
      (has : type.element? = some element) : Ascribes tables (.index base position) element
  | unary {op : UnaryOp} {operand : Expr} {type : TypeId} (ofOperand : Ascribes tables operand type) :
      Ascribes tables (.unary op operand) type
  | decides {op : BinaryOp} {left right : Expr} (isBool : op.givesBool = true) :
      Ascribes tables (.binary op left right) .bool
  | scales {op : BinaryOp} {left right : Expr} {scalar type : TypeId} {entry : Ty}
      (arithmetic : op.givesBool = false) (ofLeft : Ascribes tables left scalar)
      (known : tables.types[scalar.index]? = some entry) (isScalar : entry.isScalar = true)
      (ofRight : Ascribes tables right type) : Ascribes tables (.binary op left right) type
  | combines {op : BinaryOp} {left right : Expr} {type : TypeId} {entry : Ty}
      (arithmetic : op.givesBool = false) (ofLeft : Ascribes tables left type)
      (known : tables.types[type.index]? = some entry) (notScalar : entry.isScalar = false) :
      Ascribes tables (.binary op left right) type
  | construct (type : TypeId) (args : List Expr) : Ascribes tables (.construct type args) type
  | call {callee : FunctionId} {args : List Expr} {function : Function}
      (known : tables.functions[callee.index]? = some function) :
      Ascribes tables (.call callee args) function.returnType
  | sample (sampler coordinates : Expr) : Ascribes tables (.sample sampler coordinates) .vec4
  | pointer {operand : Expr} {pointee type : TypeId} (ofOperand : Ascribes tables operand pointee)
      (shared : tables.find? (.pointer pointee) = some type) :
      Ascribes tables (.addressOf operand) type
  | unpointed {operand : Expr} {type : TypeId} (ofOperand : Ascribes tables operand type)
      (missing : tables.find? (.pointer type) = none) : Ascribes tables (.addressOf operand) type

/-- Typing computes the type that the rules give, and fails where they give none. -/
theorem Tables.typeOf_eq_ok_iff_ascribes {tables : Tables} {expr : Expr} {type : TypeId} :
    tables.typeOf expr = .ok type ↔ tables.Ascribes expr type := by
  constructor
  · intro typed
    induction expr generalizing type with
    | const value =>
      obtain rfl : value.type = type := by simpa [typeOf] using typed
      exact .const value
    | var id =>
      obtain ⟨entry, known, rfl⟩ := typeOf_var_iff.mp typed
      exact .var known
    | field base position inBase =>
      obtain ⟨struct, name, fields, field, baseTyped, known, there, rfl⟩ :=
        typeOf_field_iff.mp typed
      exact .field (inBase baseTyped) known there
    | index base position inBase =>
      obtain ⟨whole, entry, baseTyped, known, has⟩ := typeOf_index_iff.mp typed
      exact .index (inBase baseTyped) known has
    | unary op operand inOperand =>
      rw [typeOf] at typed
      exact .unary (inOperand typed)
    | binary op left right inLeft inRight =>
      rw [typeOf] at typed
      split at typed
      case isTrue isBool =>
        obtain rfl : TypeId.bool = type := by simpa using typed
        exact .decides isBool
      case isFalse arithmetic =>
        simp only [Outcome.bind_eq_ok_iff, typeAt_eq_ok_iff] at typed
        obtain ⟨leftType, leftTyped, entry, known, typed⟩ := typed
        split at typed
        case isTrue isScalar =>
          exact .scales (by simpa using arithmetic) (inLeft leftTyped) known isScalar
            (inRight typed)
        case isFalse notScalar =>
          obtain rfl : leftType = type := by simpa using typed
          exact .combines (by simpa using arithmetic) (inLeft leftTyped) known
            (by simpa using notScalar)
    | construct made args =>
      obtain rfl : made = type := by simpa [typeOf] using typed
      exact .construct made args
    | call callee args =>
      obtain ⟨function, known, rfl⟩ := typeOf_call_iff.mp typed
      exact .call known
    | sample sampler coordinates =>
      obtain rfl : TypeId.vec4 = type := by simpa [typeOf] using typed
      exact .sample sampler coordinates
    | addressOf operand inOperand =>
      obtain ⟨pointee, operandTyped, rfl⟩ := typeOf_addressOf_iff.mp typed
      rw [addressType]
      cases shared : tables.find? (.pointer pointee) with
      | none => exact .unpointed (inOperand operandTyped) shared
      | some pointer => exact .pointer (inOperand operandTyped) shared
  · intro ascribes
    induction ascribes with
    | const | construct | sample => rfl
    | var known => exact typeOf_var_iff.mpr ⟨_, known, rfl⟩
    | field _ known there baseTyped =>
      exact typeOf_field_iff.mpr ⟨_, _, _, _, baseTyped, known, there, rfl⟩
    | index _ known has baseTyped => exact typeOf_index_iff.mpr ⟨_, _, baseTyped, known, has⟩
    | unary _ operandTyped => rw [typeOf, operandTyped]
    | decides isBool => simp [typeOf, isBool]
    | scales arithmetic _ known isScalar _ leftTyped rightTyped =>
      simp [typeOf, arithmetic, leftTyped, typeAt_eq_ok_iff.mpr known, isScalar, rightTyped]
    | combines arithmetic _ known notScalar leftTyped =>
      simp [typeOf, arithmetic, leftTyped, typeAt_eq_ok_iff.mpr known, notScalar]
    | call known => exact typeOf_call_iff.mpr ⟨_, known, rfl⟩
    | pointer _ shared operandTyped =>
      exact typeOf_addressOf_iff.mpr ⟨_, operandTyped, by simp [addressType, shared]⟩
    | unpointed _ missing operandTyped =>
      exact typeOf_addressOf_iff.mpr ⟨_, operandTyped, by simp [addressType, missing]⟩

/-! ## Places in a body -/

/-- A statement stands in a block, at any depth. The list has the variables that are declared by
earlier statements, of the block that it stands in or of one around it. -/
inductive Block.Has (stmt : Stmt) : Block → List VariableId → Prop where
  | here {before after : Block} :
      Has stmt (before ++ stmt :: after) (before.filterMap Prune.declared?)
  | deeper {before after inner : Block} {outer : Stmt} {declared : List VariableId}
      (own : inner ∈ outer.inner) (has : Has stmt inner declared) :
      Has stmt (before ++ outer :: after) (before.filterMap Prune.declared? ++ declared)

namespace Block

variable {stmt first : Stmt} {rest : Block} {declared : List VariableId}

/-- No statement stands in an empty block. -/
theorem not_has_nil : ¬ Has stmt [] declared := by
  generalize empty : ([] : Block) = block
  rintro (_ | _) <;> simp at empty

/-- A place in a block is its first statement, in a block of that, or after it. -/
theorem has_cons_iff : Has stmt (first :: rest) declared ↔
    (stmt = first ∧ declared = []) ∨ (∃ inner ∈ first.inner, Has stmt inner declared) ∨
      ∃ later, Has stmt rest later ∧ declared = (Prune.declared? first).toList ++ later := by
  have front (before : Block) : (first :: before).filterMap Prune.declared? =
      (Prune.declared? first).toList ++ before.filterMap Prune.declared? := by
    simp [List.filterMap_eq_flatMap_toList]
  constructor
  · generalize whole : first :: rest = block
    intro has
    cases has with
    | @here before after =>
      cases before with
      | nil =>
        obtain ⟨rfl, rfl⟩ := List.cons.inj whole
        exact .inl ⟨rfl, rfl⟩
      | cons head before =>
        obtain ⟨rfl, rfl⟩ := List.cons.inj whole
        exact .inr (.inr ⟨_, .here, front before⟩)
    | @deeper before after inner outer declared own has =>
      cases before with
      | nil =>
        obtain ⟨rfl, rfl⟩ := List.cons.inj whole
        exact .inr (.inl ⟨inner, own, has⟩)
      | cons head before =>
        obtain ⟨rfl, rfl⟩ := List.cons.inj whole
        refine .inr (.inr ⟨_, .deeper own has, ?_⟩)
        rw [front, List.append_assoc]
  · rintro (⟨rfl, rfl⟩ | ⟨inner, own, has⟩ | ⟨later, has, rfl⟩)
    · exact @Has.here stmt [] rest
    · exact @Has.deeper stmt [] rest inner first declared own has
    · cases has with
      | @here before after =>
        rw [← front]
        exact @Has.here stmt (first :: before) after
      | @deeper before after inner outer declared own has =>
        rw [← List.append_assoc, ← front]
        exact @Has.deeper stmt (first :: before) after inner outer declared own has

end Block

/-! ## The rules -/

/-- What a node of an expression keeps, given what it sees. -/
def Program.NodeRule (program : Program) (sees : VariableId → Prop) : Expr → Prop
  | .var id => sees id ∧
      ∃ entry, program.tables.vars[id.index]? = some entry ∧ entry.eliminated = false
  | .field base position => ∃ type name fields, program.tables.Ascribes base type ∧
      program.tables.types[type.index]? = some (.struct name fields) ∧ position < fields.length
  | .index base _ => ∃ type entry element, program.tables.Ascribes base type ∧
      program.tables.types[type.index]? = some entry ∧ entry.element? = some element
  | .call callee args => callee ∈ program.declaredFunctions ∧ ∃ function,
      program.tables.functions[callee.index]? = some function ∧
        function.params.length = args.length
  | _ => True

/-- What a statement of a function keeps, given what it sees. What it holds in blocks is not part of
the rule. -/
structure Program.StmtRule (program : Program) (owner : Function) (sees : VariableId → Prop)
    (stmt : Stmt) : Prop where
  nodes : ∀ root ∈ stmt.ownExprs, ∀ node : Expr, node.Within root → program.NodeRule sees node
  declares : ∀ id initial, stmt = .declare id initial →
    ∃ entry, Validity.Declarable program.tables .local id entry
  returns : ∀ value, stmt = .ret value → (value.isSome = true ↔ owner.returnType ≠ .void)

/-- Every statement of a block, at any depth, keeps its rule where it stands. -/
def Program.BlockRule (program : Program) (owner : Function) (sees : VariableId → Prop)
    (block : Block) : Prop :=
  ∀ stmt declared, block.Has stmt declared →
    program.StmtRule owner (fun id => sees id ∨ id ∈ declared) stmt

/-- The declaration at a place defines the entry point. -/
def Program.DefinesMain (program : Program) (place : Nat) : Prop :=
  ∃ function body entry, program.globals[place]? = some (.definition function body) ∧
    program.tables.functions[function.index]? = some entry ∧ entry.isMain = true

/-- What a definition keeps: its parameters are declared as such, and its statements see them and
the global variables. -/
def Program.DefinitionRule (program : Program) (function : FunctionId) (body : Block) : Prop :=
  ∃ owner, program.tables.functions[function.index]? = some owner ∧
    (∀ param ∈ owner.params,
      ∃ entry, Validity.Declarable program.tables .parameter param.variableId entry) ∧
    program.BlockRule owner
      (fun id => id ∈ program.globalVariables ∨ ∃ param ∈ owner.params, param.variableId = id) body

/-- A program keeps all rules. -/
structure Program.WellFormed (program : Program) : Prop where
  main : ∃! place, program.DefinesMain place
  globals : ∀ id, .var id ∈ program.globals →
    ∃ entry, Validity.Declarable program.tables .global id entry
  definitions : ∀ function body, .definition function body ∈ program.globals →
    program.DefinitionRule function body

/-! ## The check -/

namespace Validity

variable {program : Program} {function : FunctionId} {owner : Function}
  {visible : List VariableId}

/-- An expression passes exactly if all its nodes keep their rules. -/
theorem checkExpr_iff_nodeRule {expr : Expr} :
    checkExpr (contextOf program function) visible expr = .ok () ↔
      expr.Every (program.NodeRule fun id => id ∈ program.globalVariables ∨ id ∈ visible) := by
  induction expr with
  | const value => simp [Program.NodeRule]
  | var id => simp [checkExpr_var_iff, contextOf, Program.NodeRule]
  | field base position inBase =>
    rw [checkExpr_field_iff, inBase, Expr.every_field, and_comm]
    simp only [Program.NodeRule, contextOf, Tables.typeOf_eq_ok_iff_ascribes]
  | index base position inBase inPosition =>
    rw [checkExpr_index_iff, inBase, inPosition, Expr.every_index, ← and_assoc, and_comm]
    simp only [Program.NodeRule, contextOf, Tables.typeOf_eq_ok_iff_ascribes]
  | unary op operand inOperand => simp [inOperand, Program.NodeRule]
  | binary op left right inLeft inRight =>
    simp [checkExpr_binary_iff, inLeft, inRight, Program.NodeRule]
  | construct type args inArgs =>
    rw [checkExpr_construct_iff, Expr.every_construct]
    simpa [Program.NodeRule] using forall₂_congr inArgs
  | call callee args inArgs =>
    rw [checkExpr_call_iff, Expr.every_call, and_comm]
    exact and_congr Iff.rfl (forall₂_congr inArgs)
  | sample sampler coordinates inSampler inCoordinates =>
    simp [checkExpr_sample_iff, inSampler, inCoordinates, Program.NodeRule]
  | addressOf operand inOperand => simp [inOperand, Program.NodeRule]

/-- A statement passes exactly if it keeps its rule and the blocks in it pass. -/
theorem keeps_iff_stmtRule {stmt : Stmt}
    (known : program.tables.functions[function.index]? = some owner) :
    Keeps (contextOf program function) visible stmt ↔
      program.StmtRule owner (fun id => id ∈ program.globalVariables ∨ id ∈ visible) stmt ∧
        ∀ block ∈ stmt.inner, checkStmts (contextOf program function) block visible = .ok () := by
  have stmtRule_iff : program.StmtRule owner
      (fun id => id ∈ program.globalVariables ∨ id ∈ visible) stmt ↔
        (∀ root ∈ stmt.ownExprs, checkExpr (contextOf program function) visible root = .ok ()) ∧
          (∀ id initial, stmt = .declare id initial →
            ∃ entry, Declarable program.tables .local id entry) ∧
          ∀ value, stmt = .ret value → (value.isSome = true ↔ owner.returnType ≠ .void) := by
    simp only [checkExpr_iff_nodeRule, Expr.Every, ← Expr.within_iff_mem_nodes]
    constructor
    · rintro ⟨nodes, declares, returns⟩
      exact ⟨nodes, declares, returns⟩
    · rintro ⟨nodes, declares, returns⟩
      exact ⟨nodes, declares, returns⟩
  rw [stmtRule_iff]
  cases stmt with
  | declare id initial => simp [Keeps, Stmt.ownExprs, Stmt.inner, contextOf]
  | eval value => simp [Keeps, Stmt.ownExprs, Stmt.inner]
  | assign target value => simp [Keeps, Stmt.ownExprs, Stmt.inner]
  | ifThen condition yes => simp [Keeps, Stmt.ownExprs, Stmt.inner]
  | ifElse condition yes no => simp [Keeps, Stmt.ownExprs, Stmt.inner]
  | loop condition body => simp [Keeps, Stmt.ownExprs, Stmt.inner]
  | block body => simp [Keeps, Stmt.ownExprs, Stmt.inner]
  | ret value =>
    have matches_iff : (owner.returnType = .void ↔ value = none) ↔
        (value.isSome = true ↔ owner.returnType ≠ .void) := by
      rw [Option.isSome_iff_ne_none]
      tauto
    simp [Keeps, Stmt.ownExprs, Stmt.inner, contextOf, known, matches_iff, and_comm]
  | brk | cont | discard => simp [Keeps, Stmt.ownExprs, Stmt.inner]

/-- An empty block keeps every rule. -/
theorem blockRule_nil {sees : VariableId → Prop} : program.BlockRule owner sees [] :=
  fun _ _ has => absurd has Block.not_has_nil

/-- What the first statement of a block declares is seen by the rest of the block, not by the
statement itself and not by the blocks in it. -/
theorem blockRule_cons_iff {sees : VariableId → Prop} {first : Stmt} {rest : Block} :
    program.BlockRule owner sees (first :: rest) ↔
      program.StmtRule owner sees first ∧
        (∀ block ∈ first.inner, program.BlockRule owner sees block) ∧
        program.BlockRule owner (fun id => sees id ∨ Prune.declared? first = some id) rest := by
  have own : (fun id => sees id ∨ id ∈ ([] : List VariableId)) = sees := by simp
  have onward (later : List VariableId) :
      (fun id => sees id ∨ id ∈ (Prune.declared? first).toList ++ later) =
        fun id => (sees id ∨ Prune.declared? first = some id) ∨ id ∈ later := by
    simp [or_assoc]
  constructor
  · intro keeps
    refine ⟨?_, fun block inside stmt declared has => ?_, fun stmt later has => ?_⟩
    · have here := keeps first [] (Block.has_cons_iff.mpr (.inl ⟨rfl, rfl⟩))
      rwa [own] at here
    · exact keeps stmt declared (Block.has_cons_iff.mpr (.inr (.inl ⟨block, inside, has⟩)))
    · have there := keeps stmt _ (Block.has_cons_iff.mpr (.inr (.inr ⟨later, has, rfl⟩)))
      rwa [onward] at there
  · rintro ⟨here, inside, after⟩ stmt declared has
    rcases Block.has_cons_iff.mp has with ⟨rfl, rfl⟩ | ⟨block, isInner, within⟩ |
      ⟨later, beyond, rfl⟩
    · rwa [own]
    · exact inside block isInner stmt declared within
    · rw [onward]
      exact after stmt later beyond

/-- A block passes exactly if every statement in it keeps its rule. -/
theorem checkStmts_iff_blockRule {body : Block}
    (known : program.tables.functions[function.index]? = some owner) :
    checkStmts (contextOf program function) body visible = .ok () ↔
      program.BlockRule owner (fun id => id ∈ program.globalVariables ∨ id ∈ visible) body := by
  -- Along a block, given it for the blocks in its statements.
  have along {stmts : Block} (each : ∀ stmt ∈ stmts, ∀ block ∈ stmt.inner, ∀ visible,
      (checkStmts (contextOf program function) block visible = .ok () ↔
        program.BlockRule owner (fun id => id ∈ program.globalVariables ∨ id ∈ visible) block))
      (visible : List VariableId) :
      checkStmts (contextOf program function) stmts visible = .ok () ↔
        program.BlockRule owner (fun id => id ∈ program.globalVariables ∨ id ∈ visible) stmts := by
    induction stmts generalizing visible with
    | nil => simp [blockRule_nil]
    | cons first rest inRest =>
      rw [List.forall_mem_cons] at each
      have inFirst := forall₂_congr fun block own => each.1 block own visible
      have opened : (fun id => id ∈ program.globalVariables ∨ id ∈ opens first visible) =
          fun id => (id ∈ program.globalVariables ∨ id ∈ visible) ∨
            Prune.declared? first = some id := by
        funext id
        simp only [opens, List.mem_append, Option.mem_toList, eq_iff_iff]
        tauto
      rw [checkStmts_cons_iff, keeps_iff_stmtRule known, inRest each.2, inFirst,
        blockRule_cons_iff, opened, and_assoc]
  refine along (fun stmt member => ?_) visible
  clear member
  induction stmt using Stmt.inner_induction with
  | step stmt inside => exact fun block own => along (inside block own)

/-- A definition passes its check exactly if it keeps its rule. -/
theorem checkDefinition_iff_definitionRule {body : Block} :
    checkDefinition program function body = .ok () ↔ program.DefinitionRule function body := by
  rw [checkDefinition_eq_ok_iff]
  refine exists_congr fun owner => and_congr_right fun known => and_congr_right' ?_
  rw [checkStmts_iff_blockRule known]
  simp only [List.mem_map]

end Validity

namespace Program

variable {program : Program}

/-- One entry of a list passes a test exactly if this is so at one place of the list. -/
theorem countP_eq_one_iff {α : Type} {test : α → Bool} {entries : List α} :
    entries.countP test = 1 ↔ ∃! place : Nat, entries[place]?.any test = true := by
  induction entries with
  | nil => simp [ExistsUnique]
  | cons head tail inductionHypothesis =>
    cases passes : test head with
    | true =>
      have none_iff : tail.countP test = 0 ↔ ∀ place : Nat, tail[place]?.any test = false := by
        simp only [List.countP_eq_zero, List.mem_iff_getElem?, Option.any_eq_false]
        exact ⟨fun none place entry there => by simpa using none entry ⟨place, there⟩,
          fun none entry ⟨place, there⟩ => by simpa using none place entry there⟩
      rw [List.countP_cons_of_pos passes, Nat.add_eq_right, none_iff]
      constructor
      · intro none
        refine ⟨0, by simpa using passes, ?_⟩
        rintro (_ | place) holds
        · rfl
        · simp [none place] at holds
      · rintro ⟨place, -, only⟩ other
        by_contra holds
        have first := only 0 (by simpa using passes)
        have second := only (other + 1) (by simpa using holds)
        omega
    | false =>
      rw [List.countP_cons_of_neg (by simp [passes]), inductionHypothesis]
      constructor
      · rintro ⟨place, holds, only⟩
        refine ⟨place + 1, holds, ?_⟩
        rintro (_ | other) otherHolds
        · simp [passes] at otherHolds
        · exact congrArg (· + 1) (only other otherHolds)
      · rintro ⟨_ | place, holds, only⟩
        · simp [passes] at holds
        · refine ⟨place, holds, fun other otherHolds => ?_⟩
          have same := only (other + 1) otherHolds
          omega

/-- Whether a declaration defines the entry point can be tested. -/
theorem definesMain_iff {place : Nat} : program.DefinesMain place ↔
    program.globals[place]?.any (fun global =>
      global.definition?.any fun definition => program.isEntry definition.1) = true := by
  simp only [DefinesMain, Option.any_eq_true, isEntry]
  constructor
  · rintro ⟨function, body, entry, there, known, isMain⟩
    exact ⟨_, there, _, rfl, entry, known, isMain⟩
  · rintro ⟨global, there, ⟨function, body⟩, defines, entry, known, isMain⟩
    cases global with
    | definition =>
      cases defines
      exact ⟨function, body, entry, there, known, isMain⟩
    | struct | var | prototype => cases defines

/-- One entry point is counted exactly if one place defines it and all definitions are known. -/
theorem mainCount_eq_one_iff : program.mainCount = .ok 1 ↔
    (∀ function body, .definition function body ∈ program.globals →
      ∃ entry, program.tables.functions[function.index]? = some entry) ∧
    ∃! place, program.DefinesMain place := by
  simp only [definesMain_iff, ← countP_eq_one_iff, mainCount_eq_ok_iff, Prod.forall,
    mem_definitions]
  have counted : program.definitions.countP (fun definition => program.isEntry definition.1) =
      program.globals.countP fun global =>
        global.definition?.any fun definition => program.isEntry definition.1 := by
    rw [definitions, List.countP_filterMap]
    refine List.countP_congr fun global _ => ?_
    cases global.definition? <;> simp
  rw [counted]

/-- The check accepts exactly the well-formed programs. -/
theorem check_iff_wellFormed (program : Program) : program.check = .ok () ↔ program.WellFormed := by
  rw [check_eq_ok_iff, mainCount_eq_one_iff]
  constructor
  · rintro ⟨⟨-, main⟩, globalsOk⟩
    refine ⟨main, fun id member => ?_, fun function body member => ?_⟩
    · exact Validity.checkVariable_eq_ok_iff.mp (globalsOk _ member)
    · exact Validity.checkDefinition_iff_definitionRule.mp (globalsOk _ member)
  · intro wellFormed
    refine ⟨⟨fun function body member => ?_, wellFormed.main⟩, fun global member => ?_⟩
    · obtain ⟨owner, known, -⟩ := wellFormed.definitions function body member
      exact ⟨owner, known⟩
    · cases global with
      | struct | prototype => rfl
      | var id => exact Validity.checkVariable_eq_ok_iff.mpr (wellFormed.globals id member)
      | definition function body =>
        exact Validity.checkDefinition_iff_definitionRule.mpr
          (wellFormed.definitions function body member)

end Program

end ShaderPipeline
