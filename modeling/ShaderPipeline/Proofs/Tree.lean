import Mathlib.Data.List.Basic
import ShaderPipeline.Tree.Substitution
import ShaderPipeline.Tree.Walk

/-!
# Occurrences and substitution

The induction principles for expressions and statements give a hypothesis for
every argument and for every nested statement, whatever the list they stand in.
The roots of a block are the expressions that its statements hold, at any depth;
a fact about substitution in a block is a fact about each of its roots.
-/

namespace ShaderPipeline

namespace Expr

attribute [local grind =] nodes calls subst

/-- Induction over an expression, with a hypothesis for every operand and every argument. -/
@[elab_as_elim, induction_eliminator]
theorem induction {motive : Expr → Prop}
    (const : ∀ value, motive (.const value))
    (var : ∀ id, motive (.var id))
    (field : ∀ base position, motive base → motive (.field base position))
    (index : ∀ base position, motive base → motive position → motive (.index base position))
    (unary : ∀ op operand, motive operand → motive (.unary op operand))
    (binary : ∀ op left right, motive left → motive right → motive (.binary op left right))
    (construct : ∀ type args, (∀ arg ∈ args, motive arg) → motive (.construct type args))
    (call : ∀ callee args, (∀ arg ∈ args, motive arg) → motive (.call callee args))
    (sample : ∀ sampler coordinates, motive sampler → motive coordinates →
      motive (.sample sampler coordinates))
    (addressOf : ∀ operand, motive operand → motive (.addressOf operand))
    (expr : Expr) : motive expr :=
  @Expr.rec motive (fun args => ∀ arg ∈ args, motive arg) const var field index unary binary
    construct call sample addressOf (fun _ member => nomatch member)
    (fun _ _ head tail => List.forall_mem_cons.mpr ⟨head, tail⟩) expr

/-! ## Calls and mentions -/

/-- An expression is one of its own parts. -/
theorem self_mem_nodes (expr : Expr) : expr ∈ expr.nodes := by
  cases expr <;> simp [nodes]

/-- The parts of an argument are parts of all arguments. -/
theorem mem_nodesOfAll {node : Expr} {args : List Expr} :
    node ∈ nodesOfAll args ↔ ∃ arg ∈ args, node ∈ arg.nodes := by
  simp [nodesOfAll_eq_flatMap]

/-- The parts of a part are parts. -/
theorem nodes_subset {part expr : Expr} (inside : part ∈ expr.nodes) : part.nodes ⊆ expr.nodes := by
  have among {args : List Expr} (each : ∀ arg ∈ args, part ∈ arg.nodes → part.nodes ⊆ arg.nodes)
      (member : part ∈ nodesOfAll args) : part.nodes ⊆ nodesOfAll args := by
    obtain ⟨arg, own, found⟩ := mem_nodesOfAll.mp member
    exact fun node here => mem_nodesOfAll.mpr ⟨arg, own, each arg own found here⟩
  induction expr with
  | const | var =>
    obtain rfl := List.mem_singleton.mp inside
    exact List.Subset.refl _
  | field base position inBase | unary op base inBase | addressOf base inBase =>
    rcases List.mem_cons.mp inside with rfl | found
    · exact List.Subset.refl _
    · exact List.subset_cons_of_subset _ (inBase found)
  | index left right inLeft inRight | binary op left right inLeft inRight
  | sample left right inLeft inRight =>
    rcases List.mem_cons.mp inside with rfl | found
    · exact List.Subset.refl _
    · refine List.subset_cons_of_subset _ ?_
      rcases List.mem_append.mp found with inside | inside
      · exact List.subset_append_of_subset_left _ (inLeft inside)
      · exact List.subset_append_of_subset_right _ (inRight inside)
  | construct type args inArgs | call callee args inArgs =>
    rcases List.mem_cons.mp inside with rfl | found
    · exact List.Subset.refl _
    · exact List.subset_cons_of_subset _ (among inArgs found)

/-- A function is called in several expressions exactly if one of them calls it. -/
theorem mem_callsOfAll {callee : FunctionId} {args : List Expr} :
    callee ∈ callsOfAll args ↔ ∃ arg ∈ args, callee ∈ arg.calls := by
  simp [callsOfAll_eq_flatMap]

/-- A function is called exactly if one of the parts is a call of it. -/
theorem mem_calls_iff {callee : FunctionId} {expr : Expr} :
    callee ∈ expr.calls ↔ ∃ args, .call callee args ∈ expr.nodes := by
  induction expr with
  | const | var => simp [calls, nodes]
  | field base position inBase => simp [calls, nodes, inBase]
  | index base position inBase inPosition =>
    simp [calls, nodes, inBase, inPosition, exists_or]
  | unary op operand inOperand => simp [calls, nodes, inOperand]
  | binary op left right inLeft inRight => simp [calls, nodes, inLeft, inRight, exists_or]
  | construct type args inArgs =>
    simp only [calls, nodes, mem_callsOfAll, List.mem_cons, mem_nodesOfAll, reduceCtorEq, false_or]
    grind
  | call other args inArgs =>
    simp only [calls, nodes, List.mem_append, mem_callsOfAll, List.mem_cons, mem_nodesOfAll,
      call.injEq, exists_or, List.not_mem_nil, or_false]
    grind
  | sample sampler coordinates inSampler inCoordinates =>
    simp [calls, nodes, inSampler, inCoordinates, exists_or]
  | addressOf operand inOperand => simp [calls, nodes, inOperand]

/-! ## Rules for all parts -/

/-- Every part of an expression keeps a rule. -/
def Every (rule : Expr → Prop) (expr : Expr) : Prop := ∀ node ∈ expr.nodes, rule node

section Every

variable {rule : Expr → Prop}

instance [DecidablePred rule] (expr : Expr) : Decidable (expr.Every rule) :=
  inferInstanceAs (Decidable (∀ node ∈ expr.nodes, rule node))

/-- A rule for all parts of an expression holds for all parts of a part. -/
theorem Every.part {part expr : Expr} (every : expr.Every rule) (inside : part ∈ expr.nodes) :
    part.Every rule :=
  fun node within => every node (nodes_subset inside within)

/-- A rule for all parts may be weakened. -/
theorem Every.imp {other : Expr → Prop} {expr : Expr} (every : expr.Every rule)
    (weaker : ∀ node, rule node → other node) : expr.Every other :=
  fun node member => weaker node (every node member)

@[simp] theorem every_const {value : Constant} :
    Every rule (.const value) ↔ rule (.const value) := by simp [Every, nodes]

@[simp] theorem every_var {id : VariableId} : Every rule (.var id) ↔ rule (.var id) := by
  simp [Every, nodes]

@[simp] theorem every_field {base : Expr} {position : Nat} :
    Every rule (.field base position) ↔ rule (.field base position) ∧ base.Every rule := by
  simp [Every, nodes]

@[simp] theorem every_index {base position : Expr} :
    Every rule (.index base position) ↔
      rule (.index base position) ∧ base.Every rule ∧ position.Every rule := by
  simp [Every, nodes, or_imp, forall_and]

@[simp] theorem every_unary {op : UnaryOp} {operand : Expr} :
    Every rule (.unary op operand) ↔ rule (.unary op operand) ∧ operand.Every rule := by
  simp [Every, nodes]

@[simp] theorem every_binary {op : BinaryOp} {left right : Expr} :
    Every rule (.binary op left right) ↔
      rule (.binary op left right) ∧ left.Every rule ∧ right.Every rule := by
  simp [Every, nodes, or_imp, forall_and]

/-- A rule holds for all parts of several expressions exactly if it does for those of each. -/
theorem every_nodesOfAll {args : List Expr} :
    (∀ node ∈ nodesOfAll args, rule node) ↔ ∀ arg ∈ args, arg.Every rule := by
  simp only [mem_nodesOfAll, Every]
  exact ⟨fun all arg member node inside => all node ⟨arg, member, inside⟩,
    fun all node ⟨arg, member, inside⟩ => all arg member node inside⟩

@[simp] theorem every_construct {type : TypeId} {args : List Expr} :
    Every rule (.construct type args) ↔
      rule (.construct type args) ∧ ∀ arg ∈ args, arg.Every rule := by
  rw [← every_nodesOfAll]
  simp [Every, nodes]

@[simp] theorem every_call {callee : FunctionId} {args : List Expr} :
    Every rule (.call callee args) ↔
      rule (.call callee args) ∧ ∀ arg ∈ args, arg.Every rule := by
  rw [← every_nodesOfAll]
  simp [Every, nodes]

@[simp] theorem every_sample {sampler coordinates : Expr} :
    Every rule (.sample sampler coordinates) ↔
      rule (.sample sampler coordinates) ∧ sampler.Every rule ∧ coordinates.Every rule := by
  simp [Every, nodes, or_imp, forall_and]

@[simp] theorem every_addressOf {operand : Expr} :
    Every rule (.addressOf operand) ↔ rule (.addressOf operand) ∧ operand.Every rule := by
  simp [Every, nodes]

end Every

/-- A rule about what a part refers to: variables, functions and the operands of addresses. -/
def Uses (names : VariableId → Prop) (callees : FunctionId → Prop) (operands : Expr → Prop) :
    Expr → Prop
  | var id => names id
  | call callee _ => callees callee
  | addressOf operand => operands operand
  | _ => True

section Uses

variable {names otherNames : VariableId → Prop} {callees otherCallees : FunctionId → Prop}
  {operands otherOperands : Expr → Prop}

instance [DecidablePred names] [DecidablePred callees] [DecidablePred operands] (expr : Expr) :
    Decidable (Uses names callees operands expr) :=
  match expr with
  | var id => inferInstanceAs (Decidable (names id))
  | call callee _ => inferInstanceAs (Decidable (callees callee))
  | addressOf operand => inferInstanceAs (Decidable (operands operand))
  | const _ | field _ _ | index _ _ | unary _ _ | binary _ _ _ | construct _ _ | sample _ _ =>
    .isTrue trivial

/-- An expression may use more than it does. -/
theorem Every.uses {expr : Expr} (every : expr.Every (Uses names callees operands))
    (sameNames : ∀ id, names id → otherNames id)
    (sameCallees : ∀ callee, callees callee → otherCallees callee)
    (sameOperands : ∀ operand, operands operand → otherOperands operand) :
    expr.Every (Uses otherNames otherCallees otherOperands) :=
  every.imp fun node uses => by
    cases node with
    | var id => exact sameNames id uses
    | call callee args => exact sameCallees callee uses
    | addressOf operand => exact sameOperands operand uses
    | _ => trivial

/-- What a substituted expression refers to. -/
theorem every_subst {change : Substitution}
    (symbols : ∀ id, names id →
      (change.symbol id).Every (Uses otherNames otherCallees otherOperands))
    (calls : ∀ callee args, callees callee →
      (∀ arg ∈ args, Every (Uses otherNames otherCallees otherOperands) arg) →
        (change.call callee args).Every (Uses otherNames otherCallees otherOperands))
    (addresses : ∀ operand, operands operand → operand.Every (Uses names callees operands) →
      otherOperands (operand.subst change))
    {expr : Expr} (every : expr.Every (Uses names callees operands)) :
    (expr.subst change).Every (Uses otherNames otherCallees otherOperands) := by
  induction expr with
  | const value => exact every_const.mpr trivial
  | var id => exact symbols id (every_var.mp every)
  | field base position inBase =>
    exact every_field.mpr ⟨trivial, inBase (every_field.mp every).2⟩
  | index base position inBase inPosition =>
    obtain ⟨-, everyBase, everyPosition⟩ := every_index.mp every
    exact every_index.mpr ⟨trivial, inBase everyBase, inPosition everyPosition⟩
  | unary op operand inOperand =>
    exact every_unary.mpr ⟨trivial, inOperand (every_unary.mp every).2⟩
  | binary op left right inLeft inRight =>
    obtain ⟨-, everyLeft, everyRight⟩ := every_binary.mp every
    exact every_binary.mpr ⟨trivial, inLeft everyLeft, inRight everyRight⟩
  | construct type args inArgs =>
    rw [subst, substAll_eq_map, every_construct, List.forall_mem_map]
    exact ⟨trivial, fun arg member => inArgs arg member ((every_construct.mp every).2 arg member)⟩
  | call callee args inArgs =>
    obtain ⟨here, everyArgs⟩ := every_call.mp every
    rw [subst, substAll_eq_map]
    exact calls callee _ here (List.forall_mem_map.mpr fun arg member =>
      inArgs arg member (everyArgs arg member))
  | sample sampler coordinates inSampler inCoordinates =>
    obtain ⟨-, everySampler, everyCoordinates⟩ := every_sample.mp every
    exact every_sample.mpr ⟨trivial, inSampler everySampler, inCoordinates everyCoordinates⟩
  | addressOf operand inOperand =>
    obtain ⟨here, everyOperand⟩ := every_addressOf.mp every
    exact every_addressOf.mpr ⟨addresses operand here everyOperand, inOperand everyOperand⟩

end Uses

/-! ## Substitution -/

/-- The parts of an expression are substituted with it, where calls keep their arguments. -/
theorem subst_mem_nodes {change : Substitution}
    (calls : ∀ callee args, ∀ arg ∈ args, ∀ node ∈ arg.nodes,
      node ∈ (change.call callee args).nodes) {node expr : Expr} (inside : node ∈ expr.nodes) :
    node.subst change ∈ (expr.subst change).nodes := by
  induction expr with
  | const | var =>
    simp only [nodes, List.mem_singleton] at inside
    exact inside ▸ self_mem_nodes _
  | field base _ inBase | unary _ base inBase | addressOf base inBase =>
    simp only [nodes, List.mem_cons] at inside
    rcases inside with rfl | inside
    · exact self_mem_nodes _
    · simp only [subst, nodes, List.mem_cons]
      exact .inr (inBase inside)
  | index left right inLeft inRight | binary _ left right inLeft inRight
  | sample left right inLeft inRight =>
    simp only [nodes, List.mem_cons, List.mem_append] at inside
    rcases inside with rfl | inside | inside
    · exact self_mem_nodes _
    · simp only [subst, nodes, List.mem_cons, List.mem_append]
      exact .inr (.inl (inLeft inside))
    · simp only [subst, nodes, List.mem_cons, List.mem_append]
      exact .inr (.inr (inRight inside))
  | construct type args inArgs =>
    simp only [nodes, List.mem_cons, mem_nodesOfAll] at inside
    rcases inside with rfl | ⟨arg, own, inside⟩
    · exact self_mem_nodes _
    · simp only [subst, substAll_eq_map, nodes, List.mem_cons, mem_nodesOfAll]
      exact .inr ⟨_, List.mem_map_of_mem own, inArgs arg own inside⟩
  | call callee args inArgs =>
    simp only [nodes, List.mem_cons, mem_nodesOfAll] at inside
    rcases inside with rfl | ⟨arg, own, inside⟩
    · exact self_mem_nodes _
    · rw [subst, substAll_eq_map]
      exact calls callee _ _ (List.mem_map_of_mem own) _ (inArgs arg own inside)

/-- The substitution that puts everything back changes nothing. -/
@[simp] theorem subst_default (expr : Expr) : expr.subst {} = expr := by
  induction expr with
  | const value => rfl
  | var id => rfl
  | field base position inBase => simp [subst, inBase]
  | index base position inBase inPosition => simp [subst, inBase, inPosition]
  | unary op operand inOperand => simp [subst, inOperand]
  | binary op left right inLeft inRight => simp [subst, inLeft, inRight]
  | construct type args inArgs =>
    have same : args.map (subst {}) = args := (List.map_congr_left inArgs).trans (List.map_id' args)
    simp only [subst, substAll_eq_map, same]
  | call callee args inArgs =>
    have same : args.map (subst {}) = args := (List.map_congr_left inArgs).trans (List.map_id' args)
    simp only [subst, substAll_eq_map, same]
  | sample sampler coordinates inSampler inCoordinates => simp [subst, inSampler, inCoordinates]
  | addressOf operand inOperand => simp [subst, inOperand]

/-- One substitution after another is a single one, if it is so at every call and mention. -/
theorem subst_subst {first second both : Substitution} {expr : Expr}
    (calls : ∀ callee ∈ expr.calls, ∀ args,
      (first.call callee args).subst second = both.call callee (args.map (subst second)))
    (symbols : ∀ id, .var id ∈ expr.nodes → (first.symbol id).subst second = both.symbol id) :
    (expr.subst first).subst second = expr.subst both := by
  induction expr with
  | const value => rfl
  | var id => exact symbols id (by simp [nodes])
  | field base position inBase => grind
  | index base position inBase inPosition => grind
  | unary op operand inOperand => grind
  | binary op left right inLeft inRight => grind
  | construct type args inArgs =>
    have same : (args.map (subst first)).map (subst second) = args.map (subst both) := by
      rw [List.map_map]
      refine List.map_congr_left fun arg member => inArgs arg member ?_ ?_
      · intro callee called
        exact calls callee (by simpa [Expr.calls, mem_callsOfAll] using ⟨arg, member, called⟩)
      · intro id found
        exact symbols id (by simpa [nodes, mem_nodesOfAll] using ⟨arg, member, found⟩)
    simp only [subst, substAll_eq_map, same]
  | call callee args inArgs =>
    have same : (args.map (subst first)).map (subst second) = args.map (subst both) := by
      rw [List.map_map]
      refine List.map_congr_left fun arg member => inArgs arg member ?_ ?_
      · intro other called
        refine calls other ?_
        simp only [Expr.calls, List.mem_append, mem_callsOfAll]
        exact .inl ⟨arg, member, called⟩
      · intro id found
        exact symbols id (by simpa [nodes, mem_nodesOfAll] using ⟨arg, member, found⟩)
    simp only [subst, substAll_eq_map, calls callee (by simp [Expr.calls]), same]
  | sample sampler coordinates inSampler inCoordinates => grind
  | addressOf operand inOperand => grind

/-- Two substitutions that agree on the calls and mentions of an expression do the same to it. -/
theorem subst_congr {first second : Substitution} {expr : Expr}
    (calls : ∀ callee ∈ expr.calls, first.call callee = second.call callee)
    (symbols : ∀ id, .var id ∈ expr.nodes → first.symbol id = second.symbol id) :
    expr.subst first = expr.subst second := by
  have putBack : subst {} = id := funext subst_default
  rw [← subst_default (expr.subst first)]
  refine subst_subst (fun callee called args => ?_) fun id found => ?_
  · rw [subst_default, calls callee called, putBack, List.map_id]
  · rw [subst_default, symbols id found]

end Expr

namespace Stmt

/-- Induction over a statement, with a hypothesis for every statement nested in it. -/
@[elab_as_elim, induction_eliminator]
theorem induction {motive : Stmt → Prop}
    (declare : ∀ id initial, motive (.declare id initial))
    (eval : ∀ value, motive (.eval value))
    (assign : ∀ target value, motive (.assign target value))
    (ifThen : ∀ condition yes, (∀ stmt ∈ yes, motive stmt) → motive (.ifThen condition yes))
    (ifElse : ∀ condition yes no, (∀ stmt ∈ yes, motive stmt) → (∀ stmt ∈ no, motive stmt) →
      motive (.ifElse condition yes no))
    (loop : ∀ condition body, (∀ stmt ∈ body, motive stmt) → motive (.loop condition body))
    (block : ∀ body, (∀ stmt ∈ body, motive stmt) → motive (.block body))
    (ret : ∀ value, motive (.ret value))
    (brk : motive .brk) (cont : motive .cont) (discard : motive .discard)
    (stmt : Stmt) : motive stmt :=
  @Stmt.rec motive (fun stmts => ∀ stmt ∈ stmts, motive stmt) declare eval assign ifThen ifElse
    loop block ret brk cont discard (fun _ member => nomatch member)
    (fun _ _ head tail => List.forall_mem_cons.mpr ⟨head, tail⟩) stmt

/-- The expressions that a statement holds, at any depth. -/
def roots (stmt : Stmt) : List Expr := stmt.nodes.flatMap ownExprs

/-- A statement stands in a block exactly if it stands in one of its statements. -/
theorem mem_nodesOfAll {node : Stmt} {stmts : List Stmt} :
    node ∈ nodesOfAll stmts ↔ ∃ stmt ∈ stmts, node ∈ stmt.nodes := by
  simp [nodesOfAll_eq_flatMap]

/-- A statement is one of its own parts. -/
theorem self_mem_nodes (stmt : Stmt) : stmt ∈ stmt.nodes := by
  cases stmt <;> simp [nodes]

end Stmt

namespace Block

/-- The expressions that the statements of a block hold, at any depth. -/
def roots (block : Block) : List Expr := block.stmts.flatMap Stmt.ownExprs

@[simp] theorem roots_nil : roots [] = [] := rfl

@[simp] theorem roots_cons (stmt : Stmt) (rest : Block) :
    roots (stmt :: rest) = stmt.roots ++ roots rest := by
  simp [roots, stmts, Stmt.nodesOfAll, Stmt.roots]

@[simp] theorem roots_append (first second : Block) :
    roots (first ++ second) = roots first ++ roots second := by
  induction first with
  | nil => rfl
  | cons stmt rest inductionHypothesis => simp [inductionHypothesis]

/-- The roots of a block are those of its statements. -/
theorem mem_roots {expr : Expr} {block : Block} :
    expr ∈ block.roots ↔ ∃ stmt ∈ block, expr ∈ stmt.roots := by
  induction block with
  | nil => simp
  | cons stmt rest inductionHypothesis => simp [inductionHypothesis]

/-- Every part of every expression of a block keeps a rule. -/
def Every (rule : Expr → Prop) (block : Block) : Prop := ∀ root ∈ block.roots, root.Every rule

instance (rule : Expr → Prop) [DecidablePred rule] (block : Block) :
    Decidable (Block.Every rule block) :=
  inferInstanceAs (Decidable (∀ root ∈ block.roots, root.Every rule))

@[simp] theorem every_nil {rule : Expr → Prop} : Every rule [] := by simp [Every]

@[simp] theorem every_cons {rule : Expr → Prop} {stmt : Stmt} {rest : Block} :
    Every rule (stmt :: rest) ↔ (∀ root ∈ stmt.roots, root.Every rule) ∧ Every rule rest := by
  simp [Every, or_imp, forall_and]

@[simp] theorem every_append {rule : Expr → Prop} {first second : Block} :
    Every rule (first ++ second) ↔ Every rule first ∧ Every rule second := by
  simp [Every, or_imp, forall_and]

/-- A variable is mentioned in a block exactly if it stands in one of its roots. -/
theorem mem_symbols_iff {id : VariableId} {block : Block} :
    id ∈ block.symbols ↔ ∃ root ∈ block.roots, .var id ∈ root.nodes := by
  have isVar (expr : Expr) : expr.symbol? = some id ↔ expr = .var id := by
    cases expr <;> simp [Expr.symbol?]
  simp only [symbols, exprs, roots, List.mem_filterMap, List.mem_flatMap, isVar]
  constructor
  · rintro ⟨_, ⟨stmt, inside, root, own, found⟩, rfl⟩
    exact ⟨root, ⟨stmt, inside, own⟩, found⟩
  · rintro ⟨root, ⟨stmt, inside, own⟩, found⟩
    exact ⟨_, ⟨stmt, inside, root, own, found⟩, rfl⟩

/-- A function is called in a block exactly if one of its roots calls it. -/
theorem mem_calls_iff {callee : FunctionId} {block : Block} :
    callee ∈ block.calls ↔ ∃ root ∈ block.roots, callee ∈ root.calls := by
  simp only [calls, roots, List.mem_flatMap]
  constructor
  · rintro ⟨stmt, inside, root, own, called⟩
    exact ⟨root, ⟨stmt, inside, own⟩, called⟩
  · rintro ⟨root, ⟨stmt, inside, own⟩, called⟩
    exact ⟨stmt, inside, root, own, called⟩

end Block

namespace Stmt

section Roots

attribute [local simp] roots nodes ownExprs

@[simp] theorem roots_declare (id : VariableId) (initial : Option Expr) :
    (declare id initial).roots = initial.toList := by
  simp

@[simp] theorem roots_eval (value : Expr) : (eval value).roots = [value] := by
  simp

@[simp] theorem roots_assign (target value : Expr) :
    (assign target value).roots = [target, value] := by
  simp

@[simp] theorem roots_ifThen (condition : Expr) (yes : Block) :
    (ifThen condition yes).roots = condition :: yes.roots := by
  simp [Block.roots, Block.stmts]

@[simp] theorem roots_ifElse (condition : Expr) (yes no : Block) :
    (ifElse condition yes no).roots = condition :: (yes.roots ++ no.roots) := by
  simp [Block.roots, Block.stmts]

@[simp] theorem roots_loop (condition : Expr) (body : Block) :
    (loop condition body).roots = condition :: body.roots := by
  simp [Block.roots, Block.stmts]

@[simp] theorem roots_block (body : Block) : (block body).roots = body.roots := by
  simp [Block.roots, Block.stmts]

@[simp] theorem roots_ret (value : Option Expr) : (ret value).roots = value.toList := by
  simp

@[simp] theorem roots_brk : brk.roots = [] := rfl

@[simp] theorem roots_cont : cont.roots = [] := rfl

@[simp] theorem roots_discard : discard.roots = [] := rfl

end Roots

/-- The substitution that puts everything back changes no statement. -/
@[simp] theorem subst_default (stmt : Stmt) : stmt.subst {} = stmt := by
  have unchanged {stmts : List Stmt} (inside : ∀ stmt ∈ stmts, stmt.subst {} = stmt) :
      substAll {} stmts = stmts := by
    rw [substAll_eq_map]
    exact (List.map_congr_left inside).trans (List.map_id' stmts)
  have unchangedRoot : Expr.subst {} = id := funext Expr.subst_default
  induction stmt with
  | declare id initial => simp [subst, unchangedRoot]
  | eval value => simp [subst]
  | assign target value => simp [subst]
  | ifThen condition yes inYes => simp [subst, unchanged inYes]
  | ifElse condition yes no inYes inNo => simp [subst, unchanged inYes, unchanged inNo]
  | loop condition body inBody => simp [subst, unchanged inBody]
  | block body inBody => simp [subst, unchanged inBody]
  | ret value => simp [subst, unchangedRoot]
  | brk => rfl
  | cont => rfl
  | discard => rfl

/-- If a substitution after another is a single one at every root, it is so for the statement. -/
theorem subst_subst {first second both : Substitution} {stmt : Stmt}
    (atRoots : ∀ root ∈ stmt.roots, (root.subst first).subst second = root.subst both) :
    (stmt.subst first).subst second = stmt.subst both := by
  -- The same for a nested block, given it for the statements of the block.
  have nested {stmts : Block}
      (inside : ∀ stmt ∈ stmts,
        (∀ root ∈ stmt.roots, (root.subst first).subst second = root.subst both) →
          (stmt.subst first).subst second = stmt.subst both)
      (roots : ∀ root ∈ stmts.roots, (root.subst first).subst second = root.subst both) :
      substAll second (substAll first stmts) = substAll both stmts := by
    simp only [substAll_eq_map, List.map_map]
    refine List.map_congr_left fun stmt member => inside stmt member fun root own => roots root ?_
    exact Block.mem_roots.mpr ⟨stmt, member, own⟩
  induction stmt with
  | declare id initial => cases initial <;> simp_all [subst]
  | eval value => simpa [subst] using atRoots
  | assign target value => simpa [subst] using atRoots
  | ifThen condition yes inYes =>
    simp only [roots_ifThen, List.forall_mem_cons] at atRoots
    simp only [subst, atRoots.1, nested inYes atRoots.2]
  | ifElse condition yes no inYes inNo =>
    simp only [roots_ifElse, List.forall_mem_cons, List.forall_mem_append] at atRoots
    simp only [subst, atRoots.1, nested inYes atRoots.2.1, nested inNo atRoots.2.2]
  | loop condition body inBody =>
    simp only [roots_loop, List.forall_mem_cons] at atRoots
    simp only [subst, atRoots.1, nested inBody atRoots.2]
  | block body inBody =>
    simp only [roots_block] at atRoots
    simp only [subst, nested inBody atRoots]
  | ret value => cases value <;> simp_all [subst]
  | brk => rfl
  | cont => rfl
  | discard => rfl

end Stmt

namespace Block

@[simp] theorem subst_cons (stmt : Stmt) (rest : Block) (change : Substitution) :
    Block.subst (stmt :: rest) change = stmt.subst change :: Block.subst rest change := rfl

@[simp] theorem subst_append (first second : Block) (change : Substitution) :
    Block.subst (first ++ second) change = first.subst change ++ second.subst change := by
  simp [Block.subst, Stmt.substAll_eq_map]

/-- The roots of a substituted block are the substituted roots. -/
theorem mem_roots_subst {block : Block} {change : Substitution} {root : Expr} :
    root ∈ (Block.subst block change).roots ↔ ∃ source ∈ block.roots, source.subst change = root := by
  have nested {stmts : Block} (each : ∀ stmt ∈ stmts, ∀ root, root ∈ (stmt.subst change).roots ↔
      ∃ source ∈ stmt.roots, source.subst change = root) (root : Expr) :
      root ∈ (Block.subst stmts change).roots ↔
        ∃ source ∈ stmts.roots, source.subst change = root := by
    simp only [mem_roots, Block.subst, Stmt.substAll_eq_map, List.mem_map]
    constructor
    · rintro ⟨_, ⟨stmt, member, rfl⟩, own⟩
      obtain ⟨source, inside, same⟩ := (each stmt member root).mp own
      exact ⟨source, ⟨stmt, member, inside⟩, same⟩
    · rintro ⟨source, ⟨stmt, member, inside⟩, same⟩
      exact ⟨_, ⟨stmt, member, rfl⟩, (each stmt member root).mpr ⟨source, inside, same⟩⟩
  refine nested (fun stmt member root => ?_) root
  clear member
  induction stmt generalizing root with
  | declare | ret => simp [Stmt.subst]
  | eval | assign => simp [Stmt.subst, eq_comm]
  | ifThen condition yes inYes =>
    have yesRoots := nested inYes root
    simp only [Block.subst] at yesRoots
    simp [Stmt.subst, yesRoots, eq_comm]
  | ifElse condition yes no inYes inNo =>
    have yesRoots := nested inYes root
    have noRoots := nested inNo root
    simp only [Block.subst] at yesRoots noRoots
    simp [Stmt.subst, yesRoots, noRoots, eq_comm, or_and_right, exists_or]
  | loop condition body inBody =>
    have bodyRoots := nested inBody root
    simp only [Block.subst] at bodyRoots
    simp [Stmt.subst, bodyRoots, eq_comm]
  | block body inBody =>
    have bodyRoots := nested inBody root
    simp only [Block.subst] at bodyRoots
    simp [Stmt.subst, bodyRoots]
  | brk | cont | discard => simp [Stmt.subst]

/-- If a substitution after another is a single one at every root, it is so for the block. -/
theorem subst_subst {first second both : Substitution} {block : Block}
    (atRoots : ∀ root ∈ block.roots, (root.subst first).subst second = root.subst both) :
    (block.subst first).subst second = block.subst both := by
  simp only [Block.subst, Stmt.substAll_eq_map, List.map_map]
  refine List.map_congr_left fun stmt member => Stmt.subst_subst fun root own => atRoots root ?_
  exact mem_roots.mpr ⟨stmt, member, own⟩

@[simp] theorem subst_default (block : Block) : block.subst {} = block := by
  simp [Block.subst, Stmt.substAll_eq_map, funext Stmt.subst_default]

/-- Two substitutions that agree on the calls and mentions of a block do the same to it. -/
theorem subst_congr {first second : Substitution} {block : Block}
    (calls : ∀ callee ∈ block.calls, first.call callee = second.call callee)
    (symbols : ∀ id ∈ block.symbols, first.symbol id = second.symbol id) :
    block.subst first = block.subst second := by
  rw [← subst_default (block.subst first)]
  refine subst_subst fun root own => ?_
  rw [Expr.subst_default]
  refine Expr.subst_congr (fun callee called => ?_) (fun id found => ?_)
  · exact calls callee (mem_calls_iff.mpr ⟨root, own, called⟩)
  · exact symbols id (mem_symbols_iff.mpr ⟨root, own, found⟩)

/-- A substitution that leaves the calls and mentions of a block alone changes nothing. -/
theorem subst_eq_self {change : Substitution} {block : Block}
    (calls : ∀ callee ∈ block.calls, change.call callee = .call callee)
    (symbols : ∀ id ∈ block.symbols, change.symbol id = .var id) :
    block.subst change = block := by
  conv_rhs => rw [← subst_default block]
  exact subst_congr calls symbols

end Block

end ShaderPipeline
