import Mathlib.Data.List.Forall2
import Mathlib.Data.List.Perm.Basic
import ShaderPipeline.Proofs.Rebuild.Dialogue

/-!
# What a rebuild visits

A rebuild of a body and a walk through it are two recursions over the same tree.
They cover the same nodes: the symbol hook is asked about the mentions that the
walk lists, in their order, and every call that the walk lists is put to the call
hook once, right after the questions about its arguments and with what came of
them. Answers are put in and not looked at again, so if they depend on the question
alone, the rebuild is a substitution.
-/

namespace ShaderPipeline

/-! ## Rebuilt expressions -/

namespace Expr

mutual

/-- What becomes of an expression after some exchanges in the body of `owner`. -/
inductive Rebuilt (owner : FunctionId) : Expr → List Exchange → Expr → Prop
  | const (value : Constant) : Rebuilt owner (const value) [] (const value)
  | var (id : VariableId) (answer : Expr) :
      Rebuilt owner (var id) [⟨.symbol owner id, answer⟩] answer
  | field {base newBase : Expr} {record : List Exchange} (position : Nat) :
      Rebuilt owner base record newBase →
        Rebuilt owner (field base position) record (field newBase position)
  | index {base position newBase newPosition : Expr} {first second : List Exchange} :
      Rebuilt owner base first newBase → Rebuilt owner position second newPosition →
        Rebuilt owner (index base position) (first ++ second) (index newBase newPosition)
  | unary {operand newOperand : Expr} {record : List Exchange} (op : UnaryOp) :
      Rebuilt owner operand record newOperand →
        Rebuilt owner (unary op operand) record (unary op newOperand)
  | binary {left right newLeft newRight : Expr} {first second : List Exchange} (op : BinaryOp) :
      Rebuilt owner left first newLeft → Rebuilt owner right second newRight →
        Rebuilt owner (binary op left right) (first ++ second) (binary op newLeft newRight)
  | construct {args newArgs : List Expr} {record : List Exchange} (type : TypeId) :
      RebuiltAll owner args record newArgs →
        Rebuilt owner (construct type args) record (construct type newArgs)
  | call {args newArgs : List Expr} {record : List Exchange} (callee : FunctionId)
      (answer : Expr) : RebuiltAll owner args record newArgs →
        Rebuilt owner (call callee args) (record ++ [⟨.call owner callee newArgs, answer⟩]) answer
  | sample {sampler coordinates newSampler newCoordinates : Expr} {first second : List Exchange} :
      Rebuilt owner sampler first newSampler → Rebuilt owner coordinates second newCoordinates →
        Rebuilt owner (sample sampler coordinates) (first ++ second)
          (sample newSampler newCoordinates)
  | addressOf {operand newOperand : Expr} {record : List Exchange} :
      Rebuilt owner operand record newOperand →
        Rebuilt owner (addressOf operand) record (addressOf newOperand)

/-- What becomes of several expressions, from left to right. -/
inductive RebuiltAll (owner : FunctionId) : List Expr → List Exchange → List Expr → Prop
  | nil : RebuiltAll owner [] [] []
  | cons {arg newArg : Expr} {args newArgs : List Expr} {first others : List Exchange} :
      Rebuilt owner arg first newArg → RebuiltAll owner args others newArgs →
        RebuiltAll owner (arg :: args) (first ++ others) (newArg :: newArgs)

end

variable {owner : FunctionId}

/-- A single expression is rebuilt by its own exchanges. -/
theorem RebuiltAll.singleton {expr result : Expr} {record : List Exchange}
    (rebuilt : Rebuilt owner expr record result) : RebuiltAll owner [expr] record [result] := by
  simpa using RebuiltAll.cons rebuilt .nil

/-- Two lists of expressions are rebuilt one after the other. -/
theorem RebuiltAll.append {front back newFront newBack : List Expr} {first second : List Exchange}
    (atFront : RebuiltAll owner front first newFront)
    (atBack : RebuiltAll owner back second newBack) :
    RebuiltAll owner (front ++ back) (first ++ second) (newFront ++ newBack) := by
  induction front generalizing first newFront with
  | nil =>
    cases atFront
    exact atBack
  | cons arg args inductionHypothesis =>
    cases atFront with
    | cons atFirst atOthers =>
      rw [List.append_assoc]
      exact .cons atFirst (inductionHypothesis atOthers)

/-- Several expressions are rebuilt in order, if the dialogue of each of them rebuilds it. -/
theorem rebuiltAll_of_each {args newArgs : List Expr} {record : List Exchange}
    (each : ∀ arg ∈ args, ∀ record result,
      (arg.rebuild Dialogue.asking owner).Holds record result → Rebuilt owner arg record result)
    (holds : (rebuildAll Dialogue.asking owner args).Holds record newArgs) :
    RebuiltAll owner args record newArgs := by
  induction args generalizing record newArgs with
  | nil =>
    obtain ⟨rfl, rfl⟩ := holds
    exact .nil
  | cons arg args inductionHypothesis =>
    rw [List.forall_mem_cons] at each
    simp only [rebuildAll, Dialogue.holds_bind, Dialogue.pure_eq, Dialogue.holds_done] at holds
    obtain ⟨first, _, newArg, rfl, atFirst, others, _, newArgs, rfl, atOthers, rfl, rfl⟩ := holds
    rw [List.append_nil]
    exact .cons (each.1 _ _ atFirst) (inductionHypothesis each.2 atOthers)

/-- The dialogue of a rebuild goes through the exchanges of the relation. -/
theorem rebuilt_of_holds {expr result : Expr} {record : List Exchange}
    (holds : (expr.rebuild Dialogue.asking owner).Holds record result) :
    Rebuilt owner expr record result := by
  induction expr generalizing record result with
  | const value =>
    obtain ⟨rfl, rfl⟩ := holds
    exact .const value
  | var id =>
    obtain ⟨_, _, rfl, rfl, rfl⟩ := holds
    exact .var id result
  | field base position inBase =>
    obtain ⟨first, _, newBase, rfl, atBase, rfl, rfl⟩ := Dialogue.holds_bind.mp holds
    rw [List.append_nil]
    exact .field position (inBase atBase)
  | unary op operand inOperand =>
    obtain ⟨first, _, newOperand, rfl, atOperand, rfl, rfl⟩ := Dialogue.holds_bind.mp holds
    rw [List.append_nil]
    exact .unary op (inOperand atOperand)
  | addressOf operand inOperand =>
    obtain ⟨first, _, newOperand, rfl, atOperand, rfl, rfl⟩ := Dialogue.holds_bind.mp holds
    rw [List.append_nil]
    exact .addressOf (inOperand atOperand)
  | index base position inBase inPosition =>
    simp only [rebuild, Dialogue.holds_bind, Dialogue.pure_eq, Dialogue.holds_done] at holds
    obtain ⟨first, _, newBase, rfl, atBase, second, _, newPosition, rfl, atPosition, rfl, rfl⟩ :=
      holds
    rw [List.append_nil]
    exact .index (inBase atBase) (inPosition atPosition)
  | binary op left right inLeft inRight =>
    simp only [rebuild, Dialogue.holds_bind, Dialogue.pure_eq, Dialogue.holds_done] at holds
    obtain ⟨first, _, newLeft, rfl, atLeft, second, _, newRight, rfl, atRight, rfl, rfl⟩ := holds
    rw [List.append_nil]
    exact .binary op (inLeft atLeft) (inRight atRight)
  | sample sampler coordinates inSampler inCoordinates =>
    simp only [rebuild, Dialogue.holds_bind, Dialogue.pure_eq, Dialogue.holds_done] at holds
    obtain ⟨first, _, newSampler, rfl, atSampler, second, _, newCoordinates, rfl, atCoordinates,
      rfl, rfl⟩ := holds
    rw [List.append_nil]
    exact .sample (inSampler atSampler) (inCoordinates atCoordinates)
  | construct type args inArgs =>
    obtain ⟨first, _, newArgs, rfl, atArgs, rfl, rfl⟩ := Dialogue.holds_bind.mp holds
    rw [List.append_nil]
    exact .construct type (rebuiltAll_of_each (fun arg member _ _ => inArgs arg member) atArgs)
  | call callee args inArgs =>
    obtain ⟨first, _, newArgs, rfl, atArgs, _, _, rfl, rfl, rfl⟩ := Dialogue.holds_bind.mp holds
    exact .call callee result (rebuiltAll_of_each (fun arg member _ _ => inArgs arg member) atArgs)

end Expr

/-! ## Covering nodes -/

/-- The owner and the variable of a question to the symbol hook. -/
def Exchange.symbol? (exchange : Exchange) : Option (FunctionId × VariableId) :=
  match exchange.question with
  | .symbol owner id => some (owner, id)
  | _ => none

/-- Every exchange of a record, with the exchanges before it. -/
def Exchange.trail (past : List Exchange) : List Exchange → List (List Exchange × Exchange)
  | [] => []
  | exchange :: record => (past, exchange) :: trail (past ++ [exchange]) record

/-- The exchanges before those of a second record are all of the first one. -/
theorem Exchange.trail_append (past first second : List Exchange) :
    trail past (first ++ second) = trail past first ++ trail (past ++ first) second := by
  induction first generalizing past with
  | nil => simp [trail]
  | cons exchange first inductionHypothesis => simp [trail, inductionHypothesis]

namespace Expr

/-- Whether a rebuild asks about a node. -/
def hooked : Expr → Bool
  | var _ | call _ _ => true
  | _ => false

/-- The exchange is the one about the node. The question about a call comes right after those about
its arguments, and brings what became of them. -/
def AskedIn (owner : FunctionId) (node : Expr) : List Exchange × Exchange → Prop
  | (past, exchange) =>
    match node with
    | var id => exchange.question = .symbol owner id
    | call callee args => ∃ earlier within newArgs, past = earlier ++ within ∧
        RebuiltAll owner args within newArgs ∧ exchange.question = .call owner callee newArgs
    | _ => False

/-- The exchanges of a record are about some nodes, as a walk lists them. The questions about
variables come in the order of the walk, and each node that a rebuild asks about has its own
exchange. -/
structure Covered (owner : FunctionId) (nodes : List Expr) (record : List Exchange) : Prop where
  symbols : record.filterMap Exchange.symbol? = (nodes.filterMap symbol?).map (owner, ·)
  nodes : ∃ order : List Expr, order.Perm (nodes.filter hooked) ∧
    ∀ past, List.Forall₂ (AskedIn owner) order (Exchange.trail past record)

namespace Covered

variable {owner : FunctionId} {front back : List Expr} {first second : List Exchange}

/-- No exchanges cover no nodes. -/
theorem nil : Covered owner [] [] where
  symbols := rfl
  nodes := ⟨[], .nil, fun _ => .nil⟩

/-- Two records cover what each of them covers, in order. -/
theorem append (atFront : Covered owner front first) (atBack : Covered owner back second) :
    Covered owner (front ++ back) (first ++ second) where
  symbols := by simp [atFront.symbols, atBack.symbols]
  nodes := by
    obtain ⟨inFront, permFront, eachFront⟩ := atFront.nodes
    obtain ⟨inBack, permBack, eachBack⟩ := atBack.nodes
    refine ⟨inFront ++ inBack, ?_, fun past => ?_⟩
    · rw [List.filter_append]
      exact permFront.append permBack
    · rw [Exchange.trail_append]
      exact List.rel_append (eachFront past) (eachBack (past ++ first))

/-- A node that a rebuild does not ask about needs no exchange. -/
theorem cons {node : Expr} (covered : Covered owner back second) (plain : node.hooked = false) :
    Covered owner (node :: back) second where
  symbols := by
    cases node with
    | var => simp [hooked] at plain
    | _ => simpa [List.filterMap_cons, symbol?] using covered.symbols
  nodes := by
    rw [List.filter_cons_of_neg (by simp [plain])]
    exact covered.nodes

/-- The question about a mention covers it. -/
theorem var (id : VariableId) (answer : Expr) :
    Covered owner [.var id] [⟨.symbol owner id, answer⟩] where
  symbols := rfl
  nodes := ⟨[.var id], .refl _, fun _ => .cons rfl .nil⟩

/-- The question about a call comes last and covers the node that a walk lists first. -/
theorem call {args newArgs : List Expr} (callee : FunctionId) (answer : Expr)
    (covered : Covered owner back second) (rebuilt : RebuiltAll owner args second newArgs) :
    Covered owner (.call callee args :: back)
      (second ++ [⟨.call owner callee newArgs, answer⟩]) where
  symbols := by simp [List.filterMap_cons, Exchange.symbol?, symbol?, covered.symbols]
  nodes := by
    obtain ⟨inBack, permBack, eachBack⟩ := covered.nodes
    refine ⟨inBack ++ [.call callee args], ?_, fun past => ?_⟩
    · exact (List.perm_append_singleton _ _).trans (permBack.cons _)
    · rw [Exchange.trail_append]
      exact List.rel_append (eachBack past) (.cons ⟨past, second, newArgs, rfl, rebuilt, rfl⟩ .nil)

end Covered

variable {owner : FunctionId}

/-- Several expressions are covered, if each of them is. -/
theorem covered_of_each {args newArgs : List Expr} {record : List Exchange}
    (each : ∀ arg ∈ args, ∀ record result, Rebuilt owner arg record result →
      Covered owner arg.nodes record)
    (rebuilt : RebuiltAll owner args record newArgs) : Covered owner (nodesOfAll args) record := by
  induction args generalizing record newArgs with
  | nil =>
    cases rebuilt
    exact .nil
  | cons arg args inductionHypothesis =>
    rw [List.forall_mem_cons] at each
    cases rebuilt with
    | cons atFirst atOthers =>
      exact (each.1 _ _ atFirst).append (inductionHypothesis each.2 atOthers)

/-- A rebuild of an expression asks about its parts. -/
theorem Rebuilt.covered {expr result : Expr} {record : List Exchange}
    (rebuilt : Rebuilt owner expr record result) : Covered owner expr.nodes record := by
  induction expr generalizing record result with
  | const value =>
    cases rebuilt
    exact Covered.nil.cons rfl
  | var id =>
    cases rebuilt
    exact .var id _
  | field base position inBase =>
    cases rebuilt with
    | field _ atBase => exact (inBase atBase).cons rfl
  | unary op operand inOperand =>
    cases rebuilt with
    | unary _ atOperand => exact (inOperand atOperand).cons rfl
  | addressOf operand inOperand =>
    cases rebuilt with
    | addressOf atOperand => exact (inOperand atOperand).cons rfl
  | index base position inBase inPosition =>
    cases rebuilt with
    | index atBase atPosition => exact ((inBase atBase).append (inPosition atPosition)).cons rfl
  | binary op left right inLeft inRight =>
    cases rebuilt with
    | binary _ atLeft atRight => exact ((inLeft atLeft).append (inRight atRight)).cons rfl
  | sample sampler coordinates inSampler inCoordinates =>
    cases rebuilt with
    | sample atSampler atCoordinates =>
      exact ((inSampler atSampler).append (inCoordinates atCoordinates)).cons rfl
  | construct type args inArgs =>
    cases rebuilt with
    | construct _ atArgs =>
      exact (covered_of_each (fun arg member _ _ => inArgs arg member) atArgs).cons rfl
  | call callee args inArgs =>
    cases rebuilt with
    | call _ _ atArgs =>
      exact (covered_of_each (fun arg member _ _ => inArgs arg member) atArgs).call callee result
        atArgs

/-- A rebuild of several expressions asks about their parts. -/
theorem RebuiltAll.covered {args newArgs : List Expr} {record : List Exchange}
    (rebuilt : RebuiltAll owner args record newArgs) : Covered owner (nodesOfAll args) record :=
  covered_of_each (fun _ _ _ _ => Rebuilt.covered) rebuilt

end Expr

end ShaderPipeline
