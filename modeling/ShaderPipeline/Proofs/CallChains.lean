import Mathlib.Logic.Relation
import ShaderPipeline.Proofs.Dependents

/-!
# Chains of calls

A function depends on a set of variables exactly if a chain of calls leads from
it to a function whose body mentions one of them. Occurrences are told here by
the grammar of expressions and statements, one rule for every place where a part
can stand, and not by the lists that a walk produces. The search for the
dependent functions goes on as long as a round finds a caller, so it has to be
shown that it ends; the chains may well go in circles.
-/

namespace ShaderPipeline

/-! ## Occurrences -/

/-- An expression stands in another one: it is the whole of it, or it stands in one of the
operands or arguments. -/
inductive Expr.Within (part : Expr) : Expr → Prop where
  | whole : Within part part
  | field {base : Expr} {position : Nat} (inside : Within part base) :
      Within part (.field base position)
  | indexBase {base position : Expr} (inside : Within part base) :
      Within part (.index base position)
  | indexPosition {base position : Expr} (inside : Within part position) :
      Within part (.index base position)
  | unary {op : UnaryOp} {operand : Expr} (inside : Within part operand) :
      Within part (.unary op operand)
  | binaryLeft {op : BinaryOp} {left right : Expr} (inside : Within part left) :
      Within part (.binary op left right)
  | binaryRight {op : BinaryOp} {left right : Expr} (inside : Within part right) :
      Within part (.binary op left right)
  | construct {type : TypeId} {args : List Expr} {arg : Expr} (own : arg ∈ args)
      (inside : Within part arg) : Within part (.construct type args)
  | call {callee : FunctionId} {args : List Expr} {arg : Expr} (own : arg ∈ args)
      (inside : Within part arg) : Within part (.call callee args)
  | sampler {sampler coordinates : Expr} (inside : Within part sampler) :
      Within part (.sample sampler coordinates)
  | coordinates {sampler coordinates : Expr} (inside : Within part coordinates) :
      Within part (.sample sampler coordinates)
  | addressOf {operand : Expr} (inside : Within part operand) : Within part (.addressOf operand)

/-- An expression stands in a statement: in one of its own expressions, or in a statement of a block
in it. -/
inductive Stmt.Holds (part : Expr) : Stmt → Prop where
  | initial {id : VariableId} {initial : Expr} (inside : part.Within initial) :
      Holds part (.declare id (some initial))
  | eval {value : Expr} (inside : part.Within value) : Holds part (.eval value)
  | target {target value : Expr} (inside : part.Within target) : Holds part (.assign target value)
  | value {target value : Expr} (inside : part.Within value) : Holds part (.assign target value)
  | condition {condition : Expr} {yes : Block} (inside : part.Within condition) :
      Holds part (.ifThen condition yes)
  | yes {condition : Expr} {yes : Block} {stmt : Stmt} (own : stmt ∈ yes) (inside : Holds part stmt) :
      Holds part (.ifThen condition yes)
  | choice {condition : Expr} {yes no : Block} (inside : part.Within condition) :
      Holds part (.ifElse condition yes no)
  | first {condition : Expr} {yes no : Block} {stmt : Stmt} (own : stmt ∈ yes)
      (inside : Holds part stmt) : Holds part (.ifElse condition yes no)
  | second {condition : Expr} {yes no : Block} {stmt : Stmt} (own : stmt ∈ no)
      (inside : Holds part stmt) : Holds part (.ifElse condition yes no)
  | guard {condition : Expr} {body : Block} (inside : part.Within condition) :
      Holds part (.loop condition body)
  | repeated {condition : Expr} {body : Block} {stmt : Stmt} (own : stmt ∈ body)
      (inside : Holds part stmt) : Holds part (.loop condition body)
  | nested {body : Block} {stmt : Stmt} (own : stmt ∈ body) (inside : Holds part stmt) :
      Holds part (.block body)
  | result {value : Expr} (inside : part.Within value) : Holds part (.ret (some value))

/-- An expression stands in one of the statements of a block. -/
def Block.Holds (part : Expr) (block : Block) : Prop := ∃ stmt ∈ block, stmt.Holds part

/-- A walk through an expression comes to what stands in it and to nothing else. -/
theorem Expr.within_iff_mem_nodes {part expr : Expr} : part.Within expr ↔ part ∈ expr.nodes := by
  constructor
  · intro within
    induction within with
    | whole => exact self_mem_nodes part
    | field _ inBase | unary _ inBase | addressOf _ inBase => simp [nodes, inBase]
    | indexBase _ inLeft | binaryLeft _ inLeft | sampler _ inLeft => simp [nodes, inLeft]
    | indexPosition _ inRight | binaryRight _ inRight | coordinates _ inRight =>
      simp [nodes, inRight]
    | construct own _ inArg | call own _ inArg =>
      exact List.mem_cons_of_mem _ (mem_nodesOfAll.mpr ⟨_, own, inArg⟩)
  · intro member
    induction expr with
    | const | var =>
      obtain rfl := List.mem_singleton.mp member
      exact .whole
    | field base position inBase =>
      rcases List.mem_cons.mp member with rfl | inside
      · exact .whole
      · exact .field (inBase inside)
    | unary op operand inOperand =>
      rcases List.mem_cons.mp member with rfl | inside
      · exact .whole
      · exact .unary (inOperand inside)
    | addressOf operand inOperand =>
      rcases List.mem_cons.mp member with rfl | inside
      · exact .whole
      · exact .addressOf (inOperand inside)
    | index base position inBase inPosition =>
      simp only [nodes, List.mem_cons, List.mem_append] at member
      rcases member with rfl | inside | inside
      · exact .whole
      · exact .indexBase (inBase inside)
      · exact .indexPosition (inPosition inside)
    | binary op left right inLeft inRight =>
      simp only [nodes, List.mem_cons, List.mem_append] at member
      rcases member with rfl | inside | inside
      · exact .whole
      · exact .binaryLeft (inLeft inside)
      · exact .binaryRight (inRight inside)
    | sample sampler coordinates inSampler inCoordinates =>
      simp only [nodes, List.mem_cons, List.mem_append] at member
      rcases member with rfl | inside | inside
      · exact .whole
      · exact .sampler (inSampler inside)
      · exact .coordinates (inCoordinates inside)
    | construct type args inArgs =>
      rcases List.mem_cons.mp member with rfl | inside
      · exact .whole
      · obtain ⟨arg, own, found⟩ := mem_nodesOfAll.mp inside
        exact .construct own (inArgs arg own found)
    | call callee args inArgs =>
      rcases List.mem_cons.mp member with rfl | inside
      · exact .whole
      · obtain ⟨arg, own, found⟩ := mem_nodesOfAll.mp inside
        exact .call own (inArgs arg own found)

/-- A walk through a statement comes to what stands in it and to nothing else. -/
theorem Stmt.holds_iff_mem_roots {part : Expr} {stmt : Stmt} :
    stmt.Holds part ↔ ∃ root ∈ stmt.roots, part ∈ root.nodes := by
  simp only [← Expr.within_iff_mem_nodes]
  constructor
  · intro holds
    induction holds with
    | initial inside | eval inside | target inside | value inside | condition inside
    | choice inside | guard inside | result inside => exact ⟨_, by simp, inside⟩
    | yes own _ found | first own _ found | second own _ found | repeated own _ found
    | nested own _ found =>
      obtain ⟨root, rooted, inside⟩ := found
      have among := Block.mem_roots.mpr ⟨_, own, rooted⟩
      exact ⟨root, by simp [among], inside⟩
  · rintro ⟨root, rooted, inside⟩
    induction stmt with
    | declare id initial =>
      cases initial with
      | none => simp at rooted
      | some initial =>
        obtain rfl : root = initial := by simpa using rooted
        exact .initial inside
    | eval value =>
      obtain rfl : root = value := by simpa using rooted
      exact .eval inside
    | assign target value =>
      rw [roots_assign, List.mem_pair] at rooted
      rcases rooted with rfl | rfl
      · exact .target inside
      · exact .value inside
    | ifThen condition yes inYes =>
      rw [roots_ifThen, List.mem_cons, Block.mem_roots] at rooted
      rcases rooted with rfl | ⟨sub, own, deeper⟩
      · exact .condition inside
      · exact .yes own (inYes sub own deeper)
    | ifElse condition yes no inYes inNo =>
      rw [roots_ifElse, List.mem_cons, List.mem_append, Block.mem_roots, Block.mem_roots] at rooted
      rcases rooted with rfl | ⟨sub, own, deeper⟩ | ⟨sub, own, deeper⟩
      · exact .choice inside
      · exact .first own (inYes sub own deeper)
      · exact .second own (inNo sub own deeper)
    | loop condition body inBody =>
      rw [roots_loop, List.mem_cons, Block.mem_roots] at rooted
      rcases rooted with rfl | ⟨sub, own, deeper⟩
      · exact .guard inside
      · exact .repeated own (inBody sub own deeper)
    | block body inBody =>
      rw [roots_block, Block.mem_roots] at rooted
      obtain ⟨sub, own, deeper⟩ := rooted
      exact .nested own (inBody sub own deeper)
    | ret value =>
      cases value with
      | none => simp at rooted
      | some value =>
        obtain rfl : root = value := by simpa using rooted
        exact .result inside
    | brk | cont | discard => simp at rooted

namespace Block

variable {block : Block}

/-- An expression stands in a block exactly if it is part of one of the roots. -/
theorem holds_iff_mem_roots {part : Expr} :
    block.Holds part ↔ ∃ root ∈ block.roots, part ∈ root.nodes := by
  simp only [Holds, Stmt.holds_iff_mem_roots, mem_roots]
  constructor
  · rintro ⟨stmt, own, root, rooted, inside⟩
    exact ⟨root, ⟨stmt, own, rooted⟩, inside⟩
  · rintro ⟨root, ⟨stmt, own, rooted⟩, inside⟩
    exact ⟨stmt, own, root, rooted, inside⟩

/-- So a mention stands in a block exactly if a walk lists the variable. -/
theorem holds_var_iff {id : VariableId} : block.Holds (.var id) ↔ id ∈ block.symbols := by
  rw [holds_iff_mem_roots, mem_symbols_iff]

/-- A call stands in a block exactly if a walk lists the function. -/
theorem holds_call_iff {callee : FunctionId} :
    (∃ args, block.Holds (.call callee args)) ↔ callee ∈ block.calls := by
  simp only [holds_iff_mem_roots, mem_calls_iff, Expr.mem_calls_iff]
  constructor
  · rintro ⟨args, root, rooted, inside⟩
    exact ⟨root, rooted, args, inside⟩
  · rintro ⟨root, rooted, args, inside⟩
    exact ⟨args, root, rooted, inside⟩

end Block

/-! ## The rounds of the search -/

namespace Dependents

variable {usages : List Usage} {found : List FunctionId}

/-- The search from the functions found so far: as long as a round adds a caller there is another
one, and it ends with the first round that adds none. It is counted how many rounds added one. -/
inductive Search (usages : List Usage) : List FunctionId → Nat → List FunctionId → Prop where
  | ends {found : List FunctionId} (nothing : grow usages found = found) :
      Search usages found 0 found
  | goesOn {found result : List FunctionId} {rounds : Nat} (more : grow usages found ≠ found)
      (rest : Search usages (grow usages found) rounds result) :
      Search usages found (rounds + 1) result

/-- The search ends after at most as many rounds as functions are missing. If there is time for them
all, it has ended. -/
theorem search_growTimes {times : Nat} (enough : missing usages found ≤ times) :
    ∃ rounds ≤ missing usages found, Search usages found rounds (growTimes usages times found) := by
  induction times generalizing found with
  | zero =>
    have closed : Closed usages found := closed_growTimes enough
    exact ⟨0, Nat.zero_le _, .ends (grow_eq_self closed)⟩
  | succ times inductionHypothesis =>
    by_cases closed : Closed usages found
    · rw [growTimes_eq_self closed]
      exact ⟨0, Nat.zero_le _, .ends (grow_eq_self closed)⟩
    · have fewer := missing_grow_lt closed
      obtain ⟨rounds, few, search⟩ := @inductionHypothesis (grow usages found) (by omega)
      have more : grow usages found ≠ found := by
        intro same
        rw [same] at fewer
        exact Nat.lt_irrefl _ fewer
      exact ⟨rounds + 1, by omega, .goesOn more search⟩

end Dependents

/-! ## Chains -/

namespace Program

variable {program : Program} {wanted : VariableId → Bool} {function : FunctionId}

/-- A function that the program defines calls another one, somewhere in its body. -/
def Calls (program : Program) (caller callee : FunctionId) : Prop :=
  ∃ body args, (caller, body) ∈ program.definitions ∧ Block.Holds (.call callee args) body

/-- A function that the program defines mentions a wanted variable, somewhere in its body. -/
def Mentions (program : Program) (wanted : VariableId → Bool) (function : FunctionId) : Prop :=
  ∃ body id, (function, body) ∈ program.definitions ∧ wanted id = true ∧ Block.Holds (.var id) body

/-- A chain of calls leads from a function to one that mentions a wanted variable. -/
def Leads (program : Program) (wanted : VariableId → Bool) (function : FunctionId) : Prop :=
  ∃ last, Relation.ReflTransGen program.Calls function last ∧ program.Mentions wanted last

/-- The calls of a program can be read off its walks. -/
theorem calls_iff {caller callee : FunctionId} : program.Calls caller callee ↔
    ∃ body, (caller, body) ∈ program.definitions ∧ callee ∈ Block.calls body := by
  simp only [Calls, ← Block.holds_call_iff]
  constructor
  · rintro ⟨body, args, defined, holds⟩
    exact ⟨body, defined, args, holds⟩
  · rintro ⟨body, defined, args, holds⟩
    exact ⟨body, args, defined, holds⟩

/-- So can its mentions. -/
theorem mentions_iff : program.Mentions wanted function ↔
    ∃ body, (function, body) ∈ program.definitions ∧
      ∃ id ∈ Block.symbols body, wanted id = true := by
  simp only [Mentions, Block.holds_var_iff]
  constructor
  · rintro ⟨body, id, defined, isWanted, mentioned⟩
    exact ⟨body, defined, id, mentioned, isWanted⟩
  · rintro ⟨body, defined, id, mentioned, isWanted⟩
    exact ⟨body, id, defined, isWanted, mentioned⟩

/-- The first function of a chain is defined. -/
theorem Leads.defined (leads : program.Leads wanted function) :
    function ∈ program.definitions.map Prod.fst := by
  obtain ⟨last, chain, body, id, defined, -, -⟩ := leads
  induction chain using Relation.ReflTransGen.head_induction_on with
  | refl => exact List.mem_map.mpr ⟨_, defined, rfl⟩
  | head call _ _ =>
    obtain ⟨body, args, callerDefined, -⟩ := call
    exact List.mem_map.mpr ⟨_, callerDefined, rfl⟩

/-- A caller of a dependent function is dependent. -/
theorem dependents_closed (once : (program.definitions.map Prod.fst).Nodup)
    {caller callee : FunctionId} (call : program.Calls caller callee)
    (dependent : callee ∈ program.dependents wanted) : caller ∈ program.dependents wanted := by
  obtain ⟨body, defined, called⟩ := calls_iff.mp call
  exact mem_dependents_of_call once defined called dependent

/-- The functions with a chain are exactly the dependent ones. -/
theorem mem_dependents_iff_leads (once : (program.definitions.map Prod.fst).Nodup) :
    function ∈ program.dependents wanted ↔ program.Leads wanted function := by
  constructor
  · intro dependent
    -- The defined functions with a chain are closed under callers, so nothing else is found.
    classical
    have least := @dependents_least program wanted once
      ((program.definitions.map Prod.fst).filter fun other => program.Leads wanted other)
      (fun {other body} defined id mentioned isWanted => by
        have leads : program.Leads wanted other :=
          ⟨other, .refl, mentions_iff.mpr ⟨body, defined, id, mentioned, isWanted⟩⟩
        simpa [leads] using leads.defined)
      (fun {other body} defined callee called known => by
        have calleeLeads : program.Leads wanted callee := by
          simpa using (List.mem_filter.mp known).2
        obtain ⟨last, chain, mentions⟩ := calleeLeads
        have leads : program.Leads wanted other :=
          ⟨last, .head (calls_iff.mpr ⟨body, defined, called⟩) chain, mentions⟩
        simpa [leads] using leads.defined)
    simpa using (List.mem_filter.mp (least dependent)).2
  · rintro ⟨last, chain, mentions⟩
    obtain ⟨body, defined, id, mentioned, isWanted⟩ := mentions_iff.mp mentions
    have start := mem_dependents_of_symbol once defined mentioned isWanted
    induction chain using Relation.ReflTransGen.head_induction_on with
    | refl => exact start
    | head call _ inductionHypothesis => exact dependents_closed once call inductionHypothesis

/-- Chains do not depend on the order of the definitions. -/
theorem leads_congr {other : Program} (same : other.definitions.Perm program.definitions) :
    other.Leads wanted function ↔ program.Leads wanted function := by
  have calls : other.Calls = program.Calls := by
    funext caller callee
    simp only [Calls, same.mem_iff]
  have mentions : other.Mentions wanted = program.Mentions wanted := by
    funext function
    simp only [Mentions, same.mem_iff]
  simp only [Leads, calls, mentions]

/-- If no function is defined twice, the search for the dependent functions ends after at most as
many rounds as there are definitions. It has then found exactly the defined functions from which a
chain of calls leads to a mention of a wanted variable. So callers of dependent functions are
dependent, and the order of the definitions does not matter. -/
theorem dependents_eq_chains (program : Program) (wanted : VariableId → Bool)
    (once : (program.definitions.map Prod.fst).Nodup) :
    (∃ rounds ≤ program.definitions.length,
      Dependents.Search (Dependents.usages program wanted)
        (((Dependents.usages program wanted).filter Usage.direct).map Usage.function) rounds
        (program.dependents wanted)) ∧
    (∀ function, function ∈ program.dependents wanted ↔
      function ∈ program.definitions.map Prod.fst ∧ ∃ last,
        Relation.ReflTransGen program.Calls function last ∧ program.Mentions wanted last) ∧
    (∀ caller callee, program.Calls caller callee → callee ∈ program.dependents wanted →
      caller ∈ program.dependents wanted) ∧
    (∀ other : Program, other.definitions.Perm program.definitions → ∀ function,
      function ∈ other.dependents wanted ↔ function ∈ program.dependents wanted) := by
  refine ⟨?_, fun function => ?_, fun caller callee call => dependents_closed once call,
    fun other same function => ?_⟩
  · have few : (Dependents.usages program wanted).length = program.definitions.length := by
      rw [Dependents.usages, Dependents.lastDefinitions_eq_self once, List.length_map]
    obtain ⟨rounds, bounded, search⟩ := @Dependents.search_growTimes
      (Dependents.usages program wanted)
      (((Dependents.usages program wanted).filter Usage.direct).map Usage.function)
      (Dependents.usages program wanted).length List.countP_le_length
    exact ⟨rounds, few ▸ Nat.le_trans bounded List.countP_le_length, search⟩
  · rw [mem_dependents_iff_leads once]
    exact ⟨fun leads => ⟨leads.defined, leads⟩, And.right⟩
  · have otherOnce : (other.definitions.map Prod.fst).Nodup := (same.map Prod.fst).nodup_iff.mpr once
    rw [mem_dependents_iff_leads once, mem_dependents_iff_leads otherOnce, leads_congr same]

/-- Two functions that call each other, one of them inside an argument and the other in a nested
block. The second one mentions a variable there, and it also calls a function that has no body. -/
def circling : Program where
  tables := {
    stage := .vertex
    vars := #[{ name := .temporary "count", type := .int, scope := .global }]
    functions := #[.named "there" [] .int .notApplicable, .named "back" [] .int .notApplicable,
      .named "absent" [] .int .notApplicable, .named "main" [] .void .notApplicable] }
  globals := [.var ⟨0⟩, .prototype ⟨1⟩, .prototype ⟨2⟩,
    .definition ⟨0⟩ [.ret (some (.unary .negate (.call ⟨1⟩ [])))],
    .definition ⟨1⟩ [.loop (.const (.bool true)) [.eval (.call ⟨2⟩ []),
      .ret (some (.binary .add (.call ⟨0⟩ []) (.var ⟨0⟩)))]],
    .definition ⟨3⟩ [.eval (.call ⟨0⟩ [])]]

/-- The entry point of `Program.circling` depends on the variable through the circle, and the
function without a body does not. -/
theorem dependents_eq_chains_circling :
    (circling.definitions.map Prod.fst).Nodup ∧ circling.Leads (· == ⟨0⟩) ⟨3⟩ ∧
      ¬ circling.Leads (· == ⟨0⟩) ⟨2⟩ := by
  have once : (circling.definitions.map Prod.fst).Nodup := by decide
  obtain ⟨-, chains, -, -⟩ := dependents_eq_chains circling (· == ⟨0⟩) once
  refine ⟨once, ((chains ⟨3⟩).mp (by decide)).2, fun leads => ?_⟩
  have dependent := (chains ⟨2⟩).mpr ⟨leads.defined, leads⟩
  revert dependent
  decide

end Program

end ShaderPipeline
