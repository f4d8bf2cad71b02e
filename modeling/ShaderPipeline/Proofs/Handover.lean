import ShaderPipeline.Proofs.Alignment
import ShaderPipeline.Proofs.Exits

/-!
# Handing the outputs over

The outputs are handed over by a conversion, if the layouts differ, and a return.
`Delivers` says of a program that every exit of its entry point is a copy of that,
that the conversion function is called nowhere else, and that it is defined right
after the struct that it converts into. Pruning keeps all of it, since nothing in a
handover is idle.
-/

namespace ShaderPipeline

namespace Plan

/-- What hands the outputs over: the conversion, if the layouts differ, and the return. -/
def handover (outer : Option OuterLayout) (internal external : VariableId) : Block :=
  (outer.map fun outer => convert outer internal external).toList ++ [.ret (some (.var external))]

variable {outer : Option OuterLayout} {internal external : VariableId}

/-- A substitution that leaves the two instances and the conversion leaves the handover. -/
theorem subst_handover {change : Substitution}
    (keepsInternal : change.symbol internal = .var internal)
    (keepsExternal : change.symbol external = .var external)
    (calls : ∀ layout ∈ outer, change.call layout.convert = .call layout.convert) :
    Block.subst (handover outer internal external) change = handover outer internal external := by
  cases outer with
  | none => simp [handover, Block.subst, Stmt.substAll, Stmt.subst, Expr.subst, keepsExternal]
  | some layout =>
    simp [handover, convert, Block.subst, Stmt.substAll, Stmt.subst, Expr.subst, Expr.substAll,
      keepsInternal, keepsExternal, calls layout rfl]

/-- Nothing of it is idle. -/
theorem handover_lasts {refs marks : List VariableId} :
    (handover outer internal external).Lasts refs marks := by
  have returns {rest after : Block}
      (trims : Prune.Trims refs marks (.ret (some (.var external)) :: rest) after) :
      ∃ tail, after = .ret (some (.var external)) :: tail ∧ Prune.Trims refs marks rest tail := by
    cases trims with
    | drop idle => exact idle.elim
    | keep lasts tail => exact ⟨_, rfl, tail⟩
  intro rest after trims
  cases outer with
  | none => exact returns trims
  | some layout =>
    cases trims with
    | drop idle => simp [Prune.Idle, convert, Expr.hasEffect] at idle
    | keep lasts tail =>
      obtain ⟨last, rfl, trimsRest⟩ := returns tail
      exact ⟨last, rfl, trimsRest⟩

end Plan

/-- The statement does not return, and by itself it does not call the conversion function. -/
structure Stmt.Proceeds (outer : Option OuterLayout) (stmt : Stmt) : Prop where
  stays : ∀ value, stmt ≠ .ret value
  silent : ∀ root ∈ stmt.ownExprs, root.Every
    (Expr.Calling fun callee _ => ∀ layout ∈ outer, callee ≠ layout.convert)

namespace Stmt.Proceeds

variable {outer : Option OuterLayout} {stmt : Stmt}

/-- Substituted statements still proceed, if the substitution puts in no call of the conversion. -/
theorem subst {change : Substitution} (proceeds : stmt.Proceeds outer)
    (carries : ∀ root : Expr,
      root.Every (Expr.Calling fun callee _ => ∀ layout ∈ outer, callee ≠ layout.convert) →
        (root.subst change).Every
          (Expr.Calling fun callee _ => ∀ layout ∈ outer, callee ≠ layout.convert)) :
    (stmt.subst change).Proceeds outer where
  stays value same := by
    cases stmt with
    | ret => exact proceeds.stays _ rfl
    | _ => simp [Stmt.subst] at same
  silent := by
    rw [ownExprs_subst, List.forall_mem_map]
    exact fun root own => carries root (proceeds.silent root own)

/-- What pruning leaves of a statement still proceeds. -/
theorem keeps {refs marks : List VariableId} {left : Stmt}
    (kept : Prune.TrimsStmt refs marks stmt left) (proceeds : stmt.Proceeds outer) :
    left.Proceeds outer where
  stays value same := by
    subst same
    cases stmt with
    | declare | eval | assign | ret | brk | cont | discard =>
      exact proceeds.stays value (kept.simple rfl).symm
    | ifThen | ifElse | loop | block =>
      have inner := kept.inner
      cases inner
  silent := kept.ownExprs ▸ proceeds.silent

end Stmt.Proceeds

/-! ## What the exits look like -/

namespace Block.MadeOf

variable {outer : Option OuterLayout} {internal external : VariableId} {body part : Block}

/-- The only returns are those of the ending. -/
theorem returns {rule : Stmt → Prop} {ending : Block}
    (made : MadeOf rule ending body) (stays : ∀ {stmt : Stmt}, rule stmt → ∀ value, stmt ≠ .ret value)
    {value : Option Expr} (member : .ret value ∈ body.stmts) : .ret value ∈ ending.stmts := by
  induction made with
  | nil => simp [Block.stmts, Stmt.nodesOfAll] at member
  | step own _ _ inInner inTail =>
    rw [mem_stmts_cons, Stmt.mem_nodes_iff] at member
    rcases member with (same | ⟨part, among, inside⟩) | later
    · exact absurd same.symm (stays own value)
    · exact inInner part among inside
    · exact inTail later
  | leave _ inTail => exact (mem_stmts_append.mp member).elim id inTail

/-- The blocks in a block are made of the same ending, if that has no blocks in it. -/
theorem within {rule : Stmt → Prop} {ending : Block} (flat : ∀ stmt ∈ ending, stmt.inner = [])
    (made : MadeOf rule ending body) (within : part.Within body) : MadeOf rule ending part := by
  induction within with
  | self => exact made
  | @inside inner block stmt member own _ inDeeper =>
    apply inDeeper
    clear inDeeper
    induction made with
    | nil => simp at member
    | @step first rest _ isInner _ _ inTail =>
      rcases List.mem_cons.mp member with rfl | later
      · exact isInner inner own
      · exact inTail later
    | leave _ inTail =>
      rcases List.mem_append.mp member with here | later
      · simp [flat stmt here] at own
      · exact inTail later

variable {layout : OuterLayout}

/-- Every return comes right after the conversion. -/
theorem converts_before
    (made : MadeOf (Stmt.Proceeds (some layout)) (Plan.handover (some layout) internal external)
      part)
    {front back : Block} {value : Option Expr} (split : part = front ++ .ret value :: back) :
    ∃ before, front = before ++ [Plan.convert layout internal external] := by
  induction made generalizing front with
  | nil => simp at split
  | step own _ _ _ inTail =>
    cases front with
    | nil => exact absurd (List.cons.inj split).1 (own.stays value)
    | cons first front =>
      obtain ⟨rfl, rest⟩ := List.cons.inj split
      obtain ⟨before, rfl⟩ := inTail rest
      exact ⟨_ :: before, rfl⟩
  | leave _ inTail =>
    match front with
    | [] => simp [Plan.handover, Plan.convert] at split
    | [first] =>
      simp only [Plan.handover, Option.map_some, Option.toList_some, List.cons_append,
        List.nil_append, List.cons.injEq] at split
      exact ⟨[], by rw [split.1]; rfl⟩
    | first :: second :: front =>
      simp only [Plan.handover, Option.map_some, Option.toList_some, List.cons_append,
        List.nil_append, List.cons.injEq] at split
      obtain ⟨before, rfl⟩ := inTail split.2.2
      exact ⟨first :: second :: before, rfl⟩

/-- The conversion function is called right before a return only. -/
theorem converts_only
    (made : MadeOf (Stmt.Proceeds (some layout)) (Plan.handover (some layout) internal external)
      part)
    {front back : Block} {stmt : Stmt} (split : part = front ++ stmt :: back) {root : Expr}
    (own : root ∈ stmt.ownExprs) (called : layout.convert ∈ root.calls) :
    stmt = Plan.convert layout internal external ∧
      ∃ rest, back = .ret (some (.var external)) :: rest := by
  induction made generalizing front with
  | nil => simp at split
  | step proceeds _ _ _ inTail =>
    cases front with
    | nil =>
      obtain ⟨rfl, -⟩ := List.cons.inj split
      obtain ⟨args, inside⟩ := Expr.mem_calls_iff.mp called
      exact absurd rfl (proceeds.silent root own _ inside layout rfl)
    | cons first front => exact inTail (List.cons.inj split).2
  | leave _ inTail =>
    match front with
    | [] =>
      simp only [Plan.handover, Option.map_some, Option.toList_some, List.cons_append,
        List.nil_append, List.cons.injEq] at split
      exact ⟨split.1.symm, _, split.2.symm⟩
    | [first] =>
      simp only [Plan.handover, Option.map_some, Option.toList_some, List.cons_append,
        List.nil_append, List.cons.injEq] at split
      obtain rfl := split.2.1
      simp only [Stmt.ownExprs, Option.toList_some, List.mem_singleton] at own
      simp [own, Expr.calls] at called
    | first :: second :: front =>
      simp only [Plan.handover, Option.map_some, Option.toList_some, List.cons_append,
        List.nil_append, List.cons.injEq] at split
      exact inTail split.2.2

end Block.MadeOf

/-! ## The conversion function among the declarations -/

/-- A function is defined right after a struct is declared. -/
def Global.Follows (struct : TypeId) (function : FunctionId) (globals : List Global) : Prop :=
  ∃ front body back, globals = front ++ .struct struct :: .definition function body :: back

namespace Global.Follows

variable {struct : TypeId} {function main : FunctionId} {globals after news : List Global}

/-- The function still follows the struct when other declarations go. -/
theorem filter {keeps : Global → Bool} (follows : Follows struct function globals)
    (keepsStruct : keeps (.struct struct) = true)
    (keepsFunction : ∀ body, keeps (.definition function body) = true) :
    Follows struct function (globals.filter keeps) := by
  obtain ⟨front, body, back, rfl⟩ := follows
  exact ⟨front.filter keeps, body, back.filter keeps, by
    simp [keepsStruct, keepsFunction]⟩

/-- Declarations that are put in before another function do not come in between. -/
theorem insertAt (follows : Follows struct function globals) {place : Nat} {mainBody : Block}
    (before : globals[place]? = some (.definition main mainBody)) (other : function ≠ main) :
    Follows struct function (globals.take place ++ news ++ globals.drop place) := by
  obtain ⟨front, body, back, rfl⟩ := follows
  by_cases early : place ≤ front.length
  · refine ⟨front.take place ++ news ++ front.drop place, body, back, ?_⟩
    simp [List.take_append_of_le_length early, List.drop_append_of_le_length early]
  · -- The place is not that of the function, so it comes after both.
    obtain ⟨offset, rfl⟩ : ∃ offset, place = front.length + (offset + 1) :=
      ⟨place - front.length - 1, by omega⟩
    cases offset with
    | zero => simp [other] at before
    | succ offset =>
      refine ⟨front, body, back.take offset ++ news ++ back.drop offset, ?_⟩
      simp [List.take_length_add_append, List.drop_length_add_append]

/-- It still does when other functions are renamed. -/
theorem renames {stands : FunctionId → FunctionId} (follows : Follows struct function globals)
    (each : List.Forall₂ (Global.Renames stands) globals after)
    (fixed : stands function = function) : Follows struct function after := by
  obtain ⟨front, body, back, rfl⟩ := follows
  induction front generalizing after with
  | nil =>
    cases each with
    | cons isStruct rest =>
      cases isStruct
      cases rest with
      | cons isFunction rest =>
        cases isFunction with
        | definition _ _ changed => exact ⟨[], changed, _, by rw [fixed]; rfl⟩
  | cons global front inFront =>
    cases each with
    | cons head rest =>
      obtain ⟨first, changed, last, rfl⟩ := inFront rest
      exact ⟨_ :: first, changed, last, rfl⟩

end Global.Follows

/-! ## The outputs on their way through the categories -/

/-- The variable is a local one of a type. -/
def Tables.IsLocal (tables : Tables) (id : VariableId) (type : TypeId) : Prop :=
  ∃ entry, tables.vars[id.index]? = some entry ∧ entry.type = type ∧ entry.scope = .local

/-- A local variable stays one while the tables evolve. -/
theorem Tables.IsLocal.evolves {before after : Tables} {id : VariableId} {type : TypeId}
    (isLocal : before.IsLocal id type) (evolves : before.Evolves after) :
    after.IsLocal id type := by
  obtain ⟨entry, known, isType, scope⟩ := isLocal
  obtain ⟨gone, there⟩ := evolves.vars known
  exact ⟨_, there, by simpa using isType, by simpa using scope⟩

/-- The entry point returns a type. -/
def Program.Returns (program : Program) (type : TypeId) : Prop :=
  ∃ main entry, program.Enters main ∧ program.tables.functions[main.index]? = some entry ∧
    entry.returnType = type

/-- Every exit of the entry point is a copy of one handover, and nothing else calls the conversion
function. -/
structure Program.Delivers (program : Program) (internal external : TypeId)
    (outer : Option OuterLayout) (inner output : VariableId) (main : FunctionId) (body : Block) :
    Prop where
  enters : program.Enters main
  defined : (main, body) ∈ program.definitions
  innerLocal : program.tables.IsLocal inner internal
  outputLocal : program.tables.IsLocal output external
  uniform : outer = none → inner = output
  innerDeclared : .declare inner none ∈ body.stmts
  outputDeclared : .declare output none ∈ body.stmts
  made : Block.MadeOf (Stmt.Proceeds outer) (Plan.handover outer inner output) body
  ends : Block.EndsIn (Plan.handover outer inner output) body
  distinct : ∀ layout ∈ outer, layout.convert ≠ main
  follows : ∀ layout ∈ outer, Global.Follows external layout.convert program.globals
  elsewhere : ∀ layout ∈ outer, ∀ definition ∈ program.definitions, definition.1 ≠ main →
    Block.Every (Expr.Calling fun callee _ => callee ≠ layout.convert) definition.2

section Pruning

variable {program result : Program} {internal external : TypeId} {outer : Option OuterLayout}
  {inner output : VariableId} {main : FunctionId} {body : Block}

/-- The handover mentions both instances. -/
theorem Program.Delivers.mentions
    (delivers : program.Delivers internal external outer inner output main body) :
    inner ∈ body.symbols ∧ output ∈ body.symbols := by
  have roots {ending whole : Block} (ends : Block.EndsIn ending whole) :
      ending.roots ⊆ whole.roots := by
    induction ends with
    | here front => simp
    | inside front _ inBody => simpa using List.subset_append_of_subset_right _ inBody
  have handed := roots delivers.ends
  have isOutput : output ∈ body.symbols :=
    Block.mem_symbols_iff.mpr ⟨.var output, handed (by simp [Plan.handover]), by simp [Expr.nodes]⟩
  refine ⟨?_, isOutput⟩
  cases outer with
  | none => rwa [delivers.uniform rfl]
  | some layout =>
    exact Block.mem_symbols_iff.mpr ⟨.call layout.convert [.var inner, .var output],
      handed (by simp [Plan.handover, Plan.convert]), by simp [Expr.nodes, Expr.nodesOfAll]⟩

/-- Pruning keeps all exits. -/
theorem Program.Delivers.pruned {gone : VariableId → Bool} {refs marks : List VariableId}
    (delivers : program.Delivers internal external outer inner output main body)
    (pruned : (program.retire gone).Pruned result refs marks) (enters : result.Enters main) :
    ∃ trimmed, result.Delivers internal external outer inner output main trimmed := by
  obtain ⟨⟨_, trimmed⟩, there, rfl, trims⟩ :=
    Outcome.forall₂_exists_right pruned.definitions delivers.defined
  obtain ⟨isInner, isOutput⟩ := delivers.mentions
  have evolves : program.tables.Evolves result.tables := by
    rw [pruned.tables_eq]
    exact Tables.retire_evolves _
  have mentioned := pruned.refers.mentioned _ delivers.defined
  refine ⟨trimmed, enters, there, delivers.innerLocal.evolves evolves,
    delivers.outputLocal.evolves evolves, delivers.uniform,
    trims.declares (mentioned isInner) delivers.innerDeclared,
    trims.declares (mentioned isOutput) delivers.outputDeclared,
    delivers.made.trims Plan.handover_lasts Stmt.Proceeds.keeps trims,
    delivers.ends.trims Plan.handover_lasts trims, delivers.distinct, fun layout isOuter => ?_,
    fun layout isOuter definition defined other => ?_⟩
  · obtain ⟨globals, each, isGlobals⟩ := pruned.globals
    rw [isGlobals]
    exact ((delivers.follows layout isOuter).renames
      (each.imp fun _ _ => Prune.Trimmed.renames) rfl).filter rfl fun _ => rfl
  · obtain ⟨before, was, same, trimsOther⟩ := Outcome.forall₂_exists_left pruned.definitions defined
    exact trimsOther.every (delivers.elsewhere layout isOuter before was (same ▸ other))

end Pruning

/-- A statement without blocks that does not return. -/
def Stmt.Straight (stmt : Stmt) : Prop := stmt.inner = [] ∧ ∀ value, stmt ≠ .ret value

namespace Stmt

@[simp] theorem straight_declare (id : VariableId) (initial : Option Expr) :
    (declare id initial).Straight := by
  simp [Straight, inner]

@[simp] theorem straight_eval (value : Expr) : (eval value).Straight := by simp [Straight, inner]

@[simp] theorem straight_assign (target value : Expr) : (assign target value).Straight := by
  simp [Straight, inner]

end Stmt

/-- What fills an instance goes straight on. -/
theorem Plan.Surrounds.straight {plan : Plan} {base tables : Tables} {locals : Scoped VariableId}
    {function entry : Function} {internal : VariableId} {entering leaving : Block}
    (surrounds : plan.Surrounds base locals tables function internal entry entering leaving) :
    ∀ stmt ∈ entering, stmt.Straight := by
  have connects (slots : List TextureSlot) (params : List Param) :
      ∀ stmt ∈ connect internal slots params, stmt.Straight := by
    intro stmt member
    obtain ⟨target, value, rfl⟩ := connect_assigns internal slots params stmt member
    exact Stmt.straight_assign target value
  have starts : ∀ stmt ∈ plan.startValues internal, stmt.Straight :=
    List.forall_mem_map.mpr fun _ _ => Stmt.straight_assign _ _
  have declares {fills : Block} (each : ∀ stmt ∈ fills, stmt.Straight) :
      ∀ stmt ∈ Stmt.declare internal none :: fills, stmt.Straight :=
    List.forall_mem_cons.mpr ⟨Stmt.straight_declare _ _, each⟩
  cases surrounds with
  | kept => exact declares starts
  | returning =>
    refine declares (List.forall_mem_append.mpr ⟨?_, starts⟩)
    split <;> simp
  | fieldParams =>
    refine declares (List.forall_mem_append.mpr ⟨fun stmt member => ?_, starts⟩)
    obtain ⟨position, bound, rfl⟩ := List.mem_mapIdx.mp member
    exact Stmt.straight_assign _ _
  | textureParams => exact declares (List.forall_mem_append.mpr ⟨connects _ _, starts⟩)
  | indexParam => exact declares (List.forall_mem_cons.mpr ⟨Stmt.straight_assign _ _, starts⟩)
  | converted => exact declares (by simp [convert])

/-- After the body of an entry point that returns a value stands nothing. -/
theorem Plan.Surrounds.leaving_nil {plan : Plan} {base tables : Tables}
    {locals : Scoped VariableId} {function entry : Function} {internal : VariableId}
    {entering leaving : Block}
    (surrounds : plan.Surrounds base locals tables function internal entry entering leaving)
    (value : function.returnType ≠ .void) : leaving = [] ∧ plan.category.isOut = false := by
  cases surrounds with
  | returning _ void => exact absurd void value
  | kept shape | fieldParams shape | textureParams shape | indexParam shape | converted shape =>
    exact ⟨rfl, Category.isOut_eq_false (by simp [shape])⟩

/-- Straight statements that do not call the conversion function proceed. -/
theorem Block.each_proceeds {outer : Option OuterLayout} {block : Block}
    (straight : ∀ stmt ∈ block, stmt.Straight)
    (silent : Block.Every (Expr.Calling fun callee _ => ∀ layout ∈ outer, callee ≠ layout.convert)
      block) : block.Each (Stmt.Proceeds outer) := by
  refine each_of_flat fun stmt member => ⟨(straight stmt member).1, (straight stmt member).2, ?_⟩
  exact each_of_every silent stmt (mem_stmts_of_mem member)

end ShaderPipeline
