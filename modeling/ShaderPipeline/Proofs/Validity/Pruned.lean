import ShaderPipeline.Proofs.Pruning
import ShaderPipeline.Proofs.Validity.Grounded

/-!
# Validity of a pruned program

Pruning a grounded program succeeds and leaves a grounded one. A variable that is
mentioned, taken as a parameter or still declared is marked, so nothing refers to
a variable that goes out of use.
-/

namespace ShaderPipeline

open Validity (Context Declarable Keeps Moves contextOf)

namespace Prune

variable {refs marks visible wider : List VariableId} {old new : Context}
  {names : VariableId → Prop} {callees : FunctionId → Prop}

/-- What may be declared and named, and what may be returned, when a block is trimmed. -/
structure Suits (refs marks : List VariableId) (old new : Context) (names : VariableId → Prop)
    (callees : FunctionId → Prop) : Prop where
  moves : Moves False old new {} [] names callees
  named : ∀ id, names id → id ∈ refs
  locals : ∀ {id : VariableId} {entry : Variable}, id ∈ marks →
    Declarable old.tables .local id entry → Declarable new.tables .local id entry
  returns : ∀ {owner : Function}, old.tables.functions[old.owner.index]? = some owner →
    new.tables.functions[new.owner.index]? = some owner

/-- An expression that passes still does after pruning, if what it names stays. -/
theorem Suits.expr (suits : Suits refs marks old new names callees)
    (sees : ∀ id, names id → id ∈ visible → id ∈ wider) {expr : Expr}
    (allowed : expr.Every (old.tables.Allows False names callees))
    (checked : Validity.checkExpr old visible expr = .ok ()) :
    Validity.checkExpr new wider expr = .ok () := by
  have moved := suits.moves.checkExpr sees (List.nil_subset _) allowed checked
  rwa [Expr.subst_default] at moved

/-- A statement that stays is still valid. -/
theorem Suits.lasting (suits : Suits refs marks old new names callees)
    (sees : ∀ id, names id → id ∈ visible → id ∈ wider) {stmt : Stmt} (lasts : Lasts marks stmt)
    (allowed : ∀ root ∈ stmt.roots, root.Every (old.tables.Allows False names callees))
    (keeps : Keeps old visible stmt) : Keeps new wider stmt := by
  cases stmt with
  | declare id initial =>
    obtain ⟨initialOk, entry, declarable⟩ := keeps
    exact ⟨fun value isInitial => suits.expr sees (allowed value (by simpa using isInitial))
      (initialOk value isInitial), entry, suits.locals lasts declarable⟩
  | eval value => exact suits.expr sees (allowed value (by simp)) keeps
  | assign target value =>
    exact ⟨suits.expr sees (allowed target (by simp)) keeps.1,
      suits.expr sees (allowed value (by simp)) keeps.2⟩
  | ret value =>
    obtain ⟨⟨owner, known, fits⟩, valueOk⟩ := keeps
    exact ⟨⟨owner, suits.returns known, fits⟩, fun result isValue =>
      suits.expr sees (allowed result (by simpa using isValue)) (valueOk result isValue)⟩
  | brk | cont | discard => trivial
  | ifThen | ifElse | loop | block => exact lasts.elim

/-- What stays visible after a statement that stays. -/
theorem sees_opens (sees : ∀ id, names id → id ∈ visible → id ∈ wider) (stmt : Stmt) :
    ∀ id, names id → id ∈ Validity.opens stmt visible → id ∈ Validity.opens stmt wider := by
  intro id named member
  rcases List.mem_append.mp member with opened | before
  · exact List.mem_append_left _ opened
  · exact List.mem_append_right _ (sees id named before)

/-- A trimmed block is valid. What a dropped statement declares is not visible any more, but nothing
names it. -/
theorem Trims.checkStmts (suits : Suits refs marks old new names callees) {body trimmed : Block}
    (trims : Trims refs marks body trimmed)
    (sees : ∀ id, names id → id ∈ visible → id ∈ wider)
    (allowed : Block.Every (old.tables.Allows False names callees) body)
    (checked : Validity.checkStmts old body visible = .ok ()) :
    Validity.checkStmts new trimmed wider = .ok () := by
  induction trims generalizing visible wider with
  | nil => exact Validity.checkStmts_nil
  | @drop stmt rest after idle tail inTail =>
    obtain ⟨-, allowedRest⟩ := Block.every_cons.mp allowed
    obtain ⟨-, restOk⟩ := Validity.checkStmts_cons_iff.mp checked
    refine inTail (fun id named member => ?_) allowedRest restOk
    cases stmt with
    | declare other initial =>
      rcases List.mem_cons.mp member with rfl | before
      · exact absurd (suits.named id named) idle.1
      · exact sees id named before
    | eval value => exact sees id named member
    | _ => exact idle.elim
  | @keep stmt rest after lasts tail inTail =>
    obtain ⟨allowedHere, allowedRest⟩ := Block.every_cons.mp allowed
    obtain ⟨here, restOk⟩ := Validity.checkStmts_cons_iff.mp checked
    exact Validity.checkStmts_cons_iff.mpr ⟨suits.lasting sees lasts allowedHere here,
      inTail (sees_opens sees stmt) allowedRest restOk⟩
  | ifThen condition inner tail inInner inTail =>
    obtain ⟨allowedHere, allowedRest⟩ := Block.every_cons.mp allowed
    obtain ⟨⟨conditionOk, innerOk⟩, restOk⟩ := Validity.checkStmts_cons_iff.mp checked
    rw [Stmt.roots_ifThen, List.forall_mem_cons] at allowedHere
    exact Validity.checkStmts_cons_iff.mpr ⟨⟨suits.expr sees allowedHere.1 conditionOk,
      inInner sees allowedHere.2 innerOk⟩, inTail sees allowedRest restOk⟩
  | ifElse condition inYes inNo tail inInnerYes inInnerNo inTail =>
    obtain ⟨allowedHere, allowedRest⟩ := Block.every_cons.mp allowed
    obtain ⟨⟨conditionOk, yesOk, noOk⟩, restOk⟩ := Validity.checkStmts_cons_iff.mp checked
    rw [Stmt.roots_ifElse, List.forall_mem_cons, List.forall_mem_append] at allowedHere
    exact Validity.checkStmts_cons_iff.mpr ⟨⟨suits.expr sees allowedHere.1 conditionOk,
      inInnerYes sees allowedHere.2.1 yesOk, inInnerNo sees allowedHere.2.2 noOk⟩,
      inTail sees allowedRest restOk⟩
  | loop condition inner tail inInner inTail =>
    obtain ⟨allowedHere, allowedRest⟩ := Block.every_cons.mp allowed
    obtain ⟨⟨conditionOk, innerOk⟩, restOk⟩ := Validity.checkStmts_cons_iff.mp checked
    rw [Stmt.roots_loop, List.forall_mem_cons] at allowedHere
    exact Validity.checkStmts_cons_iff.mpr ⟨⟨suits.expr sees allowedHere.1 conditionOk,
      inInner sees allowedHere.2 innerOk⟩, inTail sees allowedRest restOk⟩
  | block inner tail inInner inTail =>
    obtain ⟨allowedHere, allowedRest⟩ := Block.every_cons.mp allowed
    obtain ⟨innerOk, restOk⟩ := Validity.checkStmts_cons_iff.mp checked
    rw [Stmt.roots_block] at allowedHere
    exact Validity.checkStmts_cons_iff.mpr ⟨inInner sees allowedHere innerOk,
      inTail sees allowedRest restOk⟩

end Prune

/-- Taking variables out of use changes no type. -/
theorem Tables.typeOf_retire (tables : Tables) (gone : VariableId → Bool) (expr : Expr) :
    (tables.retire gone).typeOf expr = tables.typeOf expr := by
  have sameType (id : TypeId) : (tables.retire gone).typeAt id = tables.typeAt id := rfl
  induction expr with
  | const | construct | call | sample => rfl
  | var id =>
    simp only [typeOf, variableAt, getElem?_retire]
    cases tables.vars[id.index]? with
    | none => rfl
    | some entry => simp [found]
  | field base position inBase => simp only [typeOf, inBase, fieldAt, fieldsOf, sameType]
  | index base position inBase => simp only [typeOf, inBase, sameType]
  | unary op operand inOperand => simp only [typeOf, inOperand]
  | binary op left right inLeft inRight => simp only [typeOf, inLeft, inRight, sameType]
  | addressOf operand inOperand => simp only [typeOf, inOperand, find?_retire]

/-- Whether a type is a sampler depends on the types only. -/
theorem Tables.isSampler_congr {before after : Tables} (same : after.types = before.types)
    (type : TypeId) : after.isSampler type = before.isSampler type := by
  simp only [isSampler, baseOf, typeAt, shapeOf_congr same, same]

/-- What has an address does not change when variables go out of use. -/
theorem Tables.addresses_retire {tables : Tables} {gone : VariableId → Bool} {operand : Expr} :
    (tables.retire gone).Addresses operand ↔ tables.Addresses operand := by
  have sameSampler := @isSampler_congr tables (tables.retire gone) rfl
  simp only [Addresses, Addressable, typeOf_retire, retire_types, sameSampler, find?_retire]

namespace Program

variable {program result : Program} {refs marks : List VariableId} {sizes : Nat → Prop}
  {gone : VariableId → Bool}

/-- The same program with certain variables out of use. -/
def retire (program : Program) (gone : VariableId → Bool) : Program :=
  { program with tables := program.tables.retire gone }

/-- If no variable goes out of use, the program stays. -/
theorem retire_false (program : Program) : (program.retire fun _ => false) = program := by
  rw [retire, Tables.retire_false]

/-- The variables that are gone are global ones that are not declared any more. -/
def Unneeded (program : Program) (gone : VariableId → Bool) : Prop :=
  ∀ id, gone id = true → id ∉ program.globalVariables ∧
    ∃ entry, program.tables.vars[id.index]? = some entry ∧ entry.scope = .global

/-- What a valid program mentions is known, in use, and declared if it is a global variable. -/
theorem mentioned_alive (valid : program.check = .ok ()) {definition : FunctionId × Block}
    (defined : definition ∈ program.definitions) {id : VariableId}
    (mentions : id ∈ Block.symbols definition.2) :
    Validity.Alive (contextOf program definition.1) id :=
  (Validity.checkDefinition_occurs (check_definition valid defined)).symbol mentions

/-- In an orderly program, what a body mentions is known and in use. -/
theorem Orderly.mentioned (orderly : program.Orderly) {definition : FunctionId × Block}
    (defined : definition ∈ program.definitions) {id : VariableId}
    (mentions : id ∈ Block.symbols definition.2) :
    Validity.Alive (contextOf program definition.1) id :=
  mentioned_alive orderly.valid defined mentions

/-- What a valid program declares inside its functions are local variables. -/
theorem declared_declarable (valid : program.check = .ok ()) {definition : FunctionId × Block}
    (defined : definition ∈ program.definitions) {stmt : Stmt}
    (inside : stmt ∈ Block.stmts definition.2) {id : VariableId}
    (declares : Prune.declared? stmt = some id) :
    ∃ entry, Declarable program.tables .local id entry :=
  (Validity.checkDefinition_checked (check_definition valid defined)).2 stmt inside id declares

/-- The global variables of a valid program are declared as they should be. -/
theorem global_declarable (valid : program.check = .ok ()) {id : VariableId}
    (declared : .var id ∈ program.globals) : ∃ entry, Declarable program.tables .global id entry :=
  Validity.checkVariable_eq_ok_iff.mp ((check_eq_ok_iff.mp valid).2 _ declared)

/-- In an orderly program, declared variables are known. -/
theorem Orderly.declared_known (orderly : program.Orderly) {id : VariableId}
    (declared : id ∈ program.globalVariables) : id.index < program.tables.vars.size := by
  obtain ⟨entry, declarable⟩ := global_declarable orderly.valid (Gathering.mem_declaredIn.mp declared)
  exact (Array.getElem?_eq_some_iff.mp declarable.known).1

/-- The functions that the program declares are known, and so are their parameters. -/
def FunctionsKnown (program : Program) : Prop :=
  ∀ function ∈ program.declaredFunctions, ∃ entry,
    program.tables.functions[function.index]? = some entry ∧
      ∀ param ∈ entry.params, param.variableId.index < program.tables.vars.size

instance (program : Program) : Decidable program.FunctionsKnown :=
  decidable_of_iff (∀ function ∈ program.declaredFunctions,
    program.tables.functions[function.index]?.any (fun entry =>
      entry.params.all fun param => param.variableId.index < program.tables.vars.size) = true)
    (by simp only [FunctionsKnown, Option.any_eq_true, List.all_eq_true, decide_eq_true_eq])

/-- In a valid program, nothing else has to be known for pruning. -/
theorem FunctionsKnown.known (functions : program.FunctionsKnown) (valid : program.check = .ok ()) :
    Prune.Known program where
  vars id member := by
    obtain ⟨entry, declarable⟩ := global_declarable valid member
    exact (Array.getElem?_eq_some_iff.mp declarable.known).1
  functions := functions
  mentioned definition defined id own := by
    obtain ⟨entry, there, -⟩ := mentioned_alive valid defined own
    exact (Array.getElem?_eq_some_iff.mp there).1
  locals definition defined stmt own id declares := by
    obtain ⟨entry, declarable⟩ := declared_declarable valid defined own declares
    exact (Array.getElem?_eq_some_iff.mp declarable.known).1

/-- What is known stays so if variables go out of use. -/
theorem known_retire (known : Prune.Known program) (gone : VariableId → Bool) :
    Prune.Known (program.retire gone) where
  vars id member := by simpa [retire] using known.vars id member
  functions function declared := by simpa [retire] using known.functions function declared
  mentioned definition defined id own := by
    simpa [retire] using known.mentioned definition defined id own
  locals definition defined stmt own id declares := by
    simpa [retire] using known.locals definition defined stmt own id declares

/-- Declared functions are known if prototypes and definitions are of known ones. -/
theorem function_known (prototypes : ∀ function, .prototype function ∈ program.globals →
      function.index < program.tables.functions.size)
    (definitions : ∀ definition ∈ program.definitions, ∃ entry,
      program.tables.functions[definition.1.index]? = some entry)
    {function : FunctionId} (declared : function ∈ program.declaredFunctions) :
    ∃ entry, program.tables.functions[function.index]? = some entry := by
  obtain ⟨global, member, isFunction⟩ := List.mem_filterMap.mp declared
  cases global with
  | struct | var => simp [Global.function?] at isFunction
  | prototype =>
    obtain rfl := Option.some.inj isFunction
    exact ⟨_, Array.getElem?_eq_getElem (prototypes _ member)⟩
  | definition _ body =>
    obtain rfl := Option.some.inj isFunction
    exact definitions _ (mem_definitions.mpr member)

/-- A declared function of an orderly program is known. -/
theorem Orderly.function_known (orderly : program.Orderly) {function : FunctionId}
    (declared : function ∈ program.declaredFunctions) :
    ∃ entry, program.tables.functions[function.index]? = some entry := by
  obtain ⟨main, enters⟩ := orderly.enters
  refine Program.function_known orderly.prototypes (fun definition defined => ?_) declared
  obtain ⟨entry, known, -⟩ := enters.isMain definition defined
  exact ⟨entry, known⟩

/-- In a grounded program, pruning finds everything that it looks up. -/
theorem Grounded.known (grounded : program.Grounded sizes) (gone : VariableId → Bool) :
    Prune.Known (program.retire gone) := by
  refine known_retire (FunctionsKnown.known (fun function declared => ?_) grounded.valid) gone
  obtain ⟨entry, there⟩ := grounded.toOrderly.function_known declared
  exact ⟨entry, there, grounded.params there⟩

/-- If no variable is gone, none that is gone is needed. -/
theorem unneeded_false : program.Unneeded fun _ => false := fun _ gone => by simp at gone

namespace Pruned

/-- A program in which no further variable is out of use is the same one. -/
theorem retire_false (pruned : program.Pruned result refs marks) :
    (program.retire fun _ => false).Pruned result refs marks := by
  rwa [Program.retire_false]

/-- Pruning puts out of use what was gone and what is not marked. -/
theorem tables_eq (pruned : (program.retire gone).Pruned result refs marks) :
    result.tables = program.tables.retire fun id => gone id || !marks.contains id := by
  rw [pruned.tables, retire, Tables.retire_retire]

/-- A marked variable that is not gone stays in use. -/
theorem vars (pruned : (program.retire gone).Pruned result refs marks) {id : VariableId}
    {entry : Variable} (stays : gone id = false) (marked : id ∈ marks)
    (known : program.tables.vars[id.index]? = some entry) :
    result.tables.vars[id.index]? = some entry := by
  simp [pruned.tables_eq, known, stays, marked]

/-- A variable that stays can be declared as before. -/
theorem declarable (pruned : (program.retire gone).Pruned result refs marks) {id : VariableId}
    {entry : Variable} {expected : Scope} (stays : gone id = false) (marked : id ∈ marks)
    (declarable : Declarable program.tables expected id entry) :
    Declarable result.tables expected id entry :=
  { declarable with known := pruned.vars stays marked declarable.known }

/-- The same entry points are counted. -/
theorem mainCount {count : Nat} (pruned : (program.retire gone).Pruned result refs marks)
    (counted : program.mainCount = .ok count) : result.mainCount = .ok count := by
  have names : result.definitions.map Prod.fst = program.definitions.map Prod.fst :=
    pruned.definition_names
  have entries : result.isEntry = program.isEntry := by
    funext function
    simp [isEntry, pruned.tables_eq]
  obtain ⟨known, sameCount⟩ := mainCount_eq_ok_iff.mp counted
  refine mainCount_eq_ok_iff.mpr ⟨fun trimmed there => ?_, ?_⟩
  · obtain ⟨definition, defined, same, -⟩ := Outcome.forall₂_exists_left pruned.definitions there
    rw [same, pruned.tables_eq]
    exact known definition defined
  · rw [← sameCount, entries]
    simpa only [List.countP_map, Function.comp_def] using
      congrArg (List.countP program.isEntry) names

end Pruned

/-- What is declared inside a function is not gone. -/
theorem Unneeded.stays_of_declarable (unneeded : program.Unneeded gone) {id : VariableId}
    {entry : Variable} {expected : Scope} (inner : expected ≠ .global)
    (declarable : Declarable program.tables expected id entry) : gone id = false := by
  by_contra isGone
  obtain ⟨-, other, known, isGlobal⟩ := unneeded id (by simpa using isGone)
  obtain rfl : other = entry := by simpa [known] using declarable.known
  exact inner (declarable.scope.symm.trans isGlobal)

/-- What is mentioned is not gone. -/
theorem Unneeded.stays_of_mentioned (unneeded : program.Unneeded gone)
    (valid : program.check = .ok ())
    {definition : FunctionId × Block} (defined : definition ∈ program.definitions)
    {id : VariableId} (mentions : id ∈ Block.symbols definition.2) : gone id = false := by
  by_contra isGone
  obtain ⟨undeclared, entry, known, isGlobal⟩ := unneeded id (by simpa using isGone)
  obtain ⟨other, otherKnown, -, declared⟩ := mentioned_alive valid defined mentions
  obtain rfl : entry = other := Option.some.inj (known.symm.trans otherKnown)
  exact undeclared (declared isGlobal)

section Prune

variable (checked : program.check = .ok ()) (unneeded : program.Unneeded gone)
  (pruned : (program.retire gone).Pruned result refs marks)

include pruned

/-- The contexts before and after pruning agree on what stays. -/
theorem Pruned.moves (function : FunctionId) :
    Moves False (contextOf program function) (contextOf result function) {} []
      (fun id => id ∈ refs ∧ gone id = false) fun _ => True where
  carries := {
    stay := fun known => by simpa [contextOf, pruned.tables_eq] using known
    quiet := fun type pointer missing found => by
      have same : result.tables.find? (.pointer type) = program.tables.find? (.pointer type) := by
        simp [pruned.tables_eq]
      simp only [contextOf, same] at missing found
      simp [missing] at found
    symbols := fun named known =>
      ⟨_, Tables.typeOf_var_iff.mpr
        ⟨_, pruned.vars named.2 (pruned.marked named.1) known, rfl⟩, .same _⟩
    calls := fun _ known =>
      ⟨_, Tables.typeOf_call_iff.mpr ⟨_, by simpa [contextOf, pruned.tables_eq] using known, rfl⟩,
        .same _⟩ }
  symbols named _ checked := by
    obtain ⟨inScope, entry, known, alive⟩ := Validity.checkExpr_var_iff.mp checked
    have marked := pruned.marked named.1
    exact Validity.checkExpr_var_iff.mpr
      ⟨inScope.imp_left fun declared => pruned.mem_globalVariables.mpr ⟨declared, marked⟩,
        entry, pruned.vars named.2 marked known, alive⟩
  calls _ _ argsOk callable := by
    obtain ⟨declared, function, known, count⟩ := callable
    refine Validity.checkExpr_call_iff.mpr ⟨argsOk, ?_, function, ?_, count⟩
    · rw [contextOf, pruned.declaredFunctions]
      exact declared
    · simpa [contextOf, pruned.tables_eq] using known

include unneeded

/-- So a body that is trimmed passes wherever it did before. -/
theorem Pruned.suits (function : FunctionId) :
    Prune.Suits refs marks (contextOf program function) (contextOf result function)
      (fun id => id ∈ refs ∧ gone id = false) fun _ => True where
  moves := pruned.moves function
  named _ named := named.1
  locals marked declarable :=
    pruned.declarable (unneeded.stays_of_declarable (by simp) declarable) marked declarable
  returns known := by simpa [contextOf, pruned.tables_eq] using known

include checked

/-- The trimmed definitions are valid. -/
theorem Pruned.check_definition {definition trimmed : FunctionId × Block}
    (defined : definition ∈ program.definitions) (same : trimmed.1 = definition.1)
    (trims : Prune.Trims refs marks definition.2 trimmed.2) :
    Validity.checkDefinition result trimmed.1 trimmed.2 = .ok () := by
  obtain ⟨entry, known, paramsOk, bodyOk⟩ :=
    Validity.checkDefinition_eq_ok_iff.mp (Program.check_definition checked defined)
  rw [same]
  refine Validity.checkDefinition_eq_ok_iff.mpr ⟨entry, ?_, fun param member => ?_, ?_⟩
  · simpa [pruned.tables_eq] using known
  · obtain ⟨declared, declarable⟩ := paramsOk param member
    exact ⟨declared, pruned.declarable (unneeded.stays_of_declarable (by simp) declarable)
      (pruned.marked (pruned.refers.params definition defined known param member)) declarable⟩
  · refine trims.checkStmts (pruned.suits unneeded definition.1) (fun _ _ => id) ?_ bodyOk
    refine Block.every_uses (fun id mentions => ⟨?_, ?_⟩) (fun _ _ => trivial) fun root _ node _ => ?_
    · exact pruned.refers.mentioned definition defined mentions
    · exact unneeded.stays_of_mentioned checked defined mentions
    · cases node <;> simp [Expr.Uses]

/-- The pruned program is valid. -/
theorem Pruned.valid : result.check = .ok () := by
  obtain ⟨counted, globalsOk⟩ := check_eq_ok_iff.mp checked
  refine check_eq_ok_iff.mpr ⟨pruned.mainCount counted, fun global member => ?_⟩
  cases global with
  | struct | prototype => rfl
  | var id =>
    obtain ⟨declared, marked⟩ := pruned.mem_globalVariables.mp (Gathering.mem_declaredIn.mpr member)
    obtain ⟨entry, declarable⟩ := global_declarable checked (Gathering.mem_declaredIn.mp declared)
    refine Validity.checkVariable_eq_ok_iff.mpr ⟨entry, pruned.declarable ?_ marked declarable⟩
    by_contra isGone
    exact (unneeded id (by simpa using isGone)).1 declared
  | definition function body =>
    obtain ⟨definition, defined, same, trims⟩ :=
      Outcome.forall₂_exists_left pruned.definitions (mem_definitions.mpr member)
    exact pruned.check_definition checked unneeded defined same trims

end Prune

/-- Pruning keeps what the makers of a program are trusted with. -/
theorem Pruned.orderly (pruned : (program.retire gone).Pruned result refs marks)
    (valid : result.check = .ok ()) (sound : program.tables.Sound) (closed : program.tables.Closed)
    (prototypes : ∀ function, .prototype function ∈ program.globals →
      function.index < program.tables.functions.size)
    (onceVariables : program.globalVariables.Nodup)
    (onceDefinitions : (program.definitions.map Prod.fst).Nodup)
    (noMainCalls : ∀ definition ∈ program.definitions, ∀ callee ∈ Block.calls definition.2,
      ∀ function, program.tables.functions[callee.index]? = some function →
        function.isMain = false) : result.Orderly where
  valid := valid
  sound := by
    obtain ⟨predefined, inUse, vectors, envs⟩ := sound
    rw [pruned.tables_eq]
    exact ⟨predefined, inUse, vectors, envs⟩
  closed := {
    parts := fun there => by
      rw [pruned.tables_eq] at there ⊢
      exact closed.parts there
    vars := fun there => by
      rw [pruned.tables_eq] at there ⊢
      obtain ⟨entry, known, rfl⟩ := Option.map_eq_some_iff.mp
        ((Tables.getElem?_retire _ _).symm.trans there)
      rw [Variable.retire_type]
      exact closed.vars known }
  prototypes function member := by
    obtain ⟨before, there, trimmed⟩ := pruned.mem_globals member
    cases trimmed with
    | prototype => simpa [pruned.tables_eq] using prototypes function there
  onceVariables := by
    rw [pruned.globalVariables]
    exact onceVariables.filter _
  onceDefinitions := by
    rw [pruned.definition_names]
    exact onceDefinitions
  noMainCalls trimmed there callee called := by
    obtain ⟨definition, defined, -, trims⟩ := Outcome.forall₂_exists_left pruned.definitions there
    obtain ⟨root, own, inside⟩ := Block.mem_calls_iff.mp called
    rw [pruned.tables_eq]
    exact noMainCalls definition defined callee
      (Block.mem_calls_iff.mpr ⟨root, trims.roots_subset own, inside⟩)

/-- Pruning keeps a program grounded. -/
theorem Pruned.grounded (pruned : (program.retire gone).Pruned result refs marks)
    (grounded : program.Grounded sizes) (unneeded : program.Unneeded gone) :
    result.Grounded sizes where
  toOrderly := pruned.orderly (pruned.valid grounded.valid unneeded) grounded.sound
    grounded.closed grounded.prototypes grounded.onceVariables grounded.onceDefinitions
    grounded.noMainCalls
  acyclic := fun there => by
    rw [pruned.tables_eq] at there
    exact grounded.acyclic there
  sized := fun there => by
    rw [pruned.tables_eq] at there
    exact grounded.sized there
  params := fun known => by
    rw [pruned.tables_eq] at known ⊢
    simpa using grounded.params known

/-- Pruning keeps addresses as they should be. -/
theorem Pruned.addressed (pruned : (program.retire gone).Pruned result refs marks)
    (addressed : program.Addressed) : result.Addressed := by
  intro trimmed there
  obtain ⟨definition, defined, -, trims⟩ := Outcome.forall₂_exists_left pruned.definitions there
  refine fun root own => (trims.every (addressed definition defined) root own).uses
    (fun _ _ => trivial) (fun _ _ => trivial) fun operand addresses => ?_
  rw [pruned.tables_eq]
  exact Tables.addresses_retire.mpr addresses

end Program

end ShaderPipeline
