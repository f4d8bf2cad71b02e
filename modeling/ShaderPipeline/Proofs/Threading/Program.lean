import ShaderPipeline.Proofs.Threading.Main

/-!
# Threading a whole program

Threading changes every body by one simultaneous substitution: calls of
dependent functions and mentions of gathered variables are replaced together,
although the calls are done first and the mentions afterwards. `Renewed` says
what becomes of each declaration; the program is gone through by `threadGlobals`
and then by `readInstance`, and the two together renew every declaration.
-/

namespace ShaderPipeline

namespace Plan

variable {plan : Plan} {state : Threading}

/-- Calls pass the instance on, and gathered variables are read from it. -/
def substitution (plan : Plan) (state : Threading) (holder : VariableId) : Substitution where
  call := (plan.callSubstitution state holder).call
  symbol := (symbolSubstitution plan.toGathering holder).symbol

/-- Replacing the calls and then the mentions is replacing both at once, because the instance was
not gathered itself. -/
theorem subst_substitution {holder : VariableId} (outside : holder ∉ plan.members) (body : Block) :
    Block.subst (Block.subst body (plan.callSubstitution state holder))
        (symbolSubstitution plan.toGathering holder) =
      Block.subst body (plan.substitution state holder) := by
  refine Block.subst_subst fun root _ => Expr.subst_subst (fun callee _ args => ?_) fun id _ => rfl
  have keeps : (symbolSubstitution plan.toGathering holder).symbol holder = .var holder := by
    simp [symbolSubstitution, outside]
  simp only [callSubstitution, substitution]
  split
  · simp only [Expr.subst, Expr.substAll_eq_map, List.map_cons, keeps]
    rfl
  · simp only [Expr.subst, Expr.substAll_eq_map]
    rfl

/-- What becomes of a declaration, if the body of a dependent function is changed by what `change`
gives for its instance. -/
inductive Renewed (plan : Plan) (state : Threading) (main : FunctionId)
    (change : VariableId → Substitution) : Global → Global → Prop where
  | struct (type : TypeId) : Renewed plan state main change (.struct type) (.struct type)
  | var (id : VariableId) : Renewed plan state main change (.var id) (.var id)
  | prototype (function : FunctionId) :
      Renewed plan state main change (.prototype function)
        (.prototype (state.replacement function))
  | independent {function : FunctionId} (body : Block) (free : function ∉ plan.dependents) :
      Renewed plan state main change (.definition function body) (.definition function body)
  | helper {function : FunctionId} (body : Block) (dependent : function ∈ plan.dependents)
      (helps : function ≠ main) :
      Renewed plan state main change (.definition function body)
        (.definition (state.replacement function)
          (Block.subst body (change (state.holder plan function))))
  | entry {body wrapped : Block} (dependent : main ∈ plan.dependents)
      (wraps : plan.wrapMain state.tables state.locals (state.replacement main)
        (Block.subst body (change (state.holder plan main))) = .ok wrapped) :
      Renewed plan state main change (.definition main body)
        (.definition (state.replacement main) wrapped)

end Plan

namespace Threading

open Plan (Renewed)

variable {plan : Plan} {base : Tables} {locals : Scoped VariableId} {main : FunctionId}
  {state next final : Threading}

/-- The declarations that threading goes through: the functions that they declare are known, and
the dependent functions contain what calls them or mentions a gathered variable. -/
structure Declared (plan : Plan) (base : Tables) (globals : List Global) : Prop where
  prototypes : ∀ {function : FunctionId}, .prototype function ∈ globals →
    function.index < base.functions.size
  definitions : ∀ {function : FunctionId} {body : Block}, .definition function body ∈ globals →
    function.index < base.functions.size
  calls : ∀ {function : FunctionId} {body : Block}, .definition function body ∈ globals →
    ∀ callee ∈ Block.calls body, callee ∈ plan.dependents → function ∈ plan.dependents
  symbols : ∀ {function : FunctionId} {body : Block}, .definition function body ∈ globals →
    ∀ id ∈ Block.symbols body, id ∈ plan.members → function ∈ plan.dependents

/-- The calls in a function that is not dependent stay as they are. -/
theorem Declared.subst_eq_self {globals : List Global} (declared : Declared plan base globals)
    {function : FunctionId} {body : Block} (member : .definition function body ∈ globals)
    (free : function ∉ plan.dependents) (holder : VariableId) :
    Block.subst body (plan.callSubstitution state holder) = body := by
  refine Block.subst_eq_self (fun callee called => ?_) fun _ _ => rfl
  have notReplaced : callee ∉ plan.dependents := mt (declared.calls member callee called) free
  funext args
  simp [Plan.callSubstitution, notReplaced]

/-- A function that is not dependent stands for itself. -/
theorem Coherent.replacement_eq_self (coherent : Coherent plan base locals main state)
    {function : FunctionId} (old : function.index < base.functions.size)
    (free : function ∉ plan.dependents) : state.replacement function = function := by
  have unknown : state.updated.lookup function = none := by
    by_contra replaced
    obtain ⟨copy, found⟩ := Option.ne_none_iff_exists'.mp replaced
    rcases (coherent.remembered found).2.2 with dependent | new
    · exact free dependent
    · omega
  simp [replacement, unknown]

/-- A replaced entry point has a new body, which is the old one if it is handed an instance. -/
theorem Coherent.wrapMain_ok (coherent : Coherent plan base locals main state)
    (ground : plan.Ground base locals main) (member : main ∈ plan.dependents) {copy : FunctionId}
    (found : state.updated.lookup main = some copy) (body : Block) :
    ∃ wrapped, plan.wrapMain state.tables state.locals copy body = .ok wrapped := by
  obtain ⟨function, known⟩ := ground.known main member
  by_cases isLocal : plan.hasLocal = true
  · obtain ⟨internal, entry, entering, leaving, -, -, -, wraps⟩ :=
      coherent.surrounds ground member known found isLocal
    exact ⟨_, wraps body⟩
  · have handed : plan.category.alwaysLocal = false ∧ plan.outer = none := by
      simpa [Plan.hasLocal] using isLocal
    exact ⟨body, by simp [Plan.wrapMain, handed]⟩

/-- Threading one declaration. -/
theorem threadGlobal_run (ground : plan.Ground base locals main)
    (coherent : Coherent plan base locals main state) {global : Global} {globals : List Global}
    (declared : Declared plan base globals) (member : global ∈ globals) :
    Outcome.Settles (plan.RefusesMain base main) (.nonVoidMain plan.category)
      (state.threadGlobal plan global) fun (threaded, next) =>
        Coherent plan base locals main next ∧ Before main state next ∧
          (∀ function body, global = .definition function body → function ∈ plan.dependents →
            ∃ copy, next.updated.lookup function = some copy) ∧
          ∀ final, Coherent plan base locals main final → Before main next final →
            Renewed plan final main (plan.callSubstitution final) global threaded := by
  cases global with
  | struct type => exact .ok ⟨coherent, .refl main state, by simp, fun _ _ _ => .struct type⟩
  | var id => exact .ok ⟨coherent, .refl main state, by simp, fun _ _ _ => .var id⟩
  | prototype function =>
    have old := declared.prototypes member
    simp only [threadGlobal]
    by_cases dependent : function ∈ plan.dependents
    · rw [if_pos ((coherent.concerns_iff old).mpr dependent)]
      refine (update_run ground coherent dependent).bind ?_
      rintro ⟨copy, next⟩ ⟨nextCoherent, later, found⟩
      refine .ok ⟨nextCoherent, later, by simp, fun final _ toFinal => ?_⟩
      exact replacement_of_lookup (toFinal.keeps found) ▸ .prototype function
    · rw [if_neg (mt (coherent.concerns_iff old).mp dependent)]
      refine .ok ⟨coherent, .refl main state, by simp, fun final finalCoherent _ => ?_⟩
      have same := finalCoherent.replacement_eq_self old dependent
      have threaded : Renewed plan final main (plan.callSubstitution final) _ _ :=
        .prototype function
      rwa [same] at threaded
  | definition function body =>
    have old := declared.definitions member
    simp only [threadGlobal]
    refine (threadCalls_run ground coherent (declared.calls member)).bind ?_
    rintro ⟨threaded, middle⟩ ⟨middleCoherent, toMiddle, same⟩
    obtain ⟨entry, known⟩ : ∃ entry, base.functions[function.index]? = some entry :=
      ⟨_, Array.getElem?_eq_getElem old⟩
    have entryOk : middle.tables.functionAt function = .ok entry := by
      simpa using middleCoherent.adds.functions known
    simp only [entryOk, Outcome.ok_bind]
    by_cases dependent : function ∈ plan.dependents
    · rw [if_pos ((middleCoherent.concerns_iff old).mpr dependent)]
      refine (update_run ground middleCoherent dependent).bind ?_
      rintro ⟨copy, next⟩ ⟨nextCoherent, toNext, found⟩
      have isMain := ground.onlyMain function dependent entry known
      by_cases enters : entry.isMain = true
      · obtain rfl : function = main := isMain.mp enters
        obtain ⟨wrapped, wraps⟩ := nextCoherent.wrapMain_ok ground dependent found threaded
        simp only [enters, if_true, wraps, Outcome.ok_bind]
        refine .ok ⟨nextCoherent, toMiddle.trans toNext, by simp [found],
          fun final _ toFinal => ?_⟩
        have sameCopy := replacement_of_lookup (toFinal.keeps found)
        have wrapsFinal : plan.wrapMain final.tables final.locals copy threaded = .ok wrapped := by
          rw [toFinal.settled found]
          exact Plan.wrapMain_adds toFinal.adds wraps
        rw [same final (toNext.trans toFinal), ← sameCopy] at wrapsFinal
        exact sameCopy ▸ .entry dependent wrapsFinal
      · have helps : function ≠ main := mt isMain.mpr enters
        simp only [enters, Outcome.pure_eq_ok, Outcome.ok_bind]
        refine .ok ⟨nextCoherent, toMiddle.trans toNext, by simp [found],
          fun final _ toFinal => ?_⟩
        have sameCopy := replacement_of_lookup (toFinal.keeps found)
        rw [same final (toNext.trans toFinal), ← sameCopy]
        exact .helper body dependent helps
    · rw [if_neg (mt (middleCoherent.concerns_iff old).mp dependent)]
      refine .ok ⟨middleCoherent, toMiddle, by simp [dependent], fun final _ toFinal => ?_⟩
      rw [same final toFinal, declared.subst_eq_self member dependent]
      exact .independent body dependent

/-- Threading the declarations in order renews each of them, as seen from the last state. -/
theorem threadGlobals_run (ground : plan.Ground base locals main)
    (coherent : Coherent plan base locals main state) {globals part : List Global}
    (declared : Declared plan base globals) (inside : part ⊆ globals) :
    Outcome.Settles (plan.RefusesMain base main) (.nonVoidMain plan.category)
      (state.threadGlobals plan part) fun (threaded, final) =>
        Coherent plan base locals main final ∧ Before main state final ∧
          (∀ function body, .definition function body ∈ part → function ∈ plan.dependents →
            ∃ copy, final.updated.lookup function = some copy) ∧
          List.Forall₂ (Renewed plan final main (plan.callSubstitution final)) part threaded := by
  induction part generalizing state with
  | nil => exact .ok ⟨coherent, .refl main state, by simp, .nil⟩
  | cons global rest inductionHypothesis =>
    rw [List.cons_subset] at inside
    refine (threadGlobal_run ground coherent declared inside.1).bind ?_
    rintro ⟨first, next⟩ ⟨nextCoherent, toNext, found, renewed⟩
    refine (inductionHypothesis nextCoherent inside.2).bind ?_
    rintro ⟨others, final⟩ ⟨finalCoherent, toFinal, foundRest, renewedRest⟩
    refine .ok ⟨finalCoherent, toNext.trans toFinal, fun function body member dependent => ?_,
      .cons (renewed final finalCoherent toFinal) renewedRest⟩
    rcases List.mem_cons.mp member with first | later
    · obtain ⟨copy, lookup⟩ := found function body first.symm dependent
      exact ⟨copy, toFinal.keeps lookup⟩
    · exact foundRest function body later dependent

/-! ## Reading the instance -/

/-- A body that mentions no gathered variable reads nothing from an instance. -/
theorem subst_symbols_eq_self {gathering : Gathering} {holder : VariableId} {body : Block}
    (free : ∀ id ∈ Block.symbols body, id ∉ gathering.members) :
    Block.subst body (Plan.symbolSubstitution gathering holder) = body := by
  refine Block.subst_eq_self (fun _ _ => rfl) fun id mentioned => ?_
  simp [Plan.symbolSubstitution, free id mentioned]

/-- A body whose function has an instance reads all gathered variables from it. -/
theorem readInstance_eq {gathering : Gathering} {tables : Tables} {locals : Scoped VariableId}
    {function : FunctionId} {holder : VariableId}
    (works : Plan.instanceOf gathering tables locals function = .ok holder) (body : Block) :
    Plan.readInstance gathering tables locals (.definition function body) =
      .ok (.definition function
        (Block.subst body (Plan.symbolSubstitution gathering holder))) := by
  simp only [Plan.readInstance]
  split
  case isTrue => simp [works]
  case isFalse none =>
    rw [subst_symbols_eq_self]
    simpa using none

/-- Reading an instance in the new body of the entry point reads it in the old body only. -/
theorem Coherent.wrapMain_subst (coherent : Coherent plan base locals main state)
    (ground : plan.Ground base locals main) (member : main ∈ plan.dependents) {copy : FunctionId}
    {body wrapped : Block} {holder : VariableId} (found : state.updated.lookup main = some copy)
    (wraps : plan.wrapMain state.tables state.locals copy body = .ok wrapped) :
    plan.wrapMain state.tables state.locals copy
        (Block.subst body (Plan.symbolSubstitution plan.toGathering holder)) =
      .ok (Block.subst wrapped (Plan.symbolSubstitution plan.toGathering holder)) := by
  obtain ⟨function, known⟩ := ground.known main member
  have keeps {id : VariableId} (outside : id ∉ plan.members) :
      (Plan.symbolSubstitution plan.toGathering holder).symbol id = .var id := by
    simp [Plan.symbolSubstitution, outside]
  by_cases isLocal : plan.hasLocal = true
  · obtain ⟨internal, entry, entering, leaving, inside, -, surrounds, wrapsAll⟩ :=
      coherent.surrounds ground member known found isLocal
    obtain ⟨sameEntering, sameLeaving⟩ := surrounds.subst_eq rfl
      (keeps (ground.freshLocals internal (.inl inside)))
      (fun external outside => keeps (ground.freshLocals external (.inr outside)))
      (fun id new => keeps fun gathered =>
        Nat.not_lt.mpr new.1 (ground.oldMembers id gathered))
    obtain rfl : _ = wrapped := by simpa [wrapsAll body] using wraps
    rw [wrapsAll]
    have nested (inner : Block) (change : Substitution) :
        Stmt.subst change (.block inner) = .block (Block.subst inner change) := rfl
    simp only [Block.subst_append, Block.subst_cons, sameEntering, sameLeaving, nested,
      Plan.subst_nest]
  · have handed : plan.category.alwaysLocal = false ∧ plan.outer = none := by
      simpa [Plan.hasLocal] using isLocal
    have unchanged (inner : Block) :
        plan.wrapMain state.tables state.locals copy inner = .ok inner := by
      simp [Plan.wrapMain, handed]
    obtain rfl : body = wrapped := by simpa [unchanged] using wraps
    exact unchanged _

/-- Reading the instance after the calls were threaded renews a declaration by both at once. -/
theorem readInstance_run (ground : plan.Ground base locals main)
    (coherent : Coherent plan base locals main state) {globals : List Global}
    (declared : Declared plan base globals) {global threaded : Global} (member : global ∈ globals)
    (found : ∀ id ∈ plan.dependents, ∃ copy, state.updated.lookup id = some copy)
    (renewed : Renewed plan state main (plan.callSubstitution state) global threaded) :
    ∃ result, Plan.readInstance plan.toGathering state.tables state.locals threaded = .ok result ∧
      Renewed plan state main (plan.substitution state) global result := by
  have works {id : FunctionId} (dependent : id ∈ plan.dependents) :
      Plan.instanceOf plan.toGathering state.tables state.locals (state.replacement id) =
        .ok (state.holder plan id) ∧ state.holder plan id ∉ plan.members := by
    obtain ⟨copy, lookup⟩ := found id dependent
    rw [replacement_of_lookup lookup]
    exact coherent.instanceOf_eq ground dependent lookup
  cases renewed with
  | struct type => exact ⟨_, rfl, .struct type⟩
  | var id => exact ⟨_, rfl, .var id⟩
  | prototype function => exact ⟨_, rfl, .prototype function⟩
  | @independent function body free =>
    refine ⟨_, ?_, .independent body free⟩
    have none : (Block.symbols body).any plan.members.contains = false := by
      simp only [List.any_eq_false, List.contains_iff_mem]
      exact fun id mentioned gathered => free (declared.symbols member id mentioned gathered)
    simp [Plan.readInstance, none]
  | helper body dependent helps =>
    obtain ⟨instanceOk, outside⟩ := works dependent
    refine ⟨_, readInstance_eq instanceOk _, ?_⟩
    rw [Plan.subst_substitution outside]
    exact .helper body dependent helps
  | @entry body wrapped dependent wraps =>
    obtain ⟨instanceOk, outside⟩ := works dependent
    refine ⟨_, readInstance_eq instanceOk _, .entry dependent ?_⟩
    rw [← Plan.subst_substitution outside]
    obtain ⟨copy, lookup⟩ := found main dependent
    rw [replacement_of_lookup lookup] at wraps ⊢
    exact coherent.wrapMain_subst ground dependent lookup wraps

/-- Reading the instance in all declarations renews each of them. -/
theorem readInstances_run (ground : plan.Ground base locals main)
    (coherent : Coherent plan base locals main state) {globals part threaded : List Global}
    (declared : Declared plan base globals) (inside : part ⊆ globals)
    (found : ∀ id ∈ plan.dependents, ∃ copy, state.updated.lookup id = some copy)
    (renewed : List.Forall₂ (Renewed plan state main (plan.callSubstitution state)) part threaded) :
    ∃ results, threaded.mapM (Plan.readInstance plan.toGathering state.tables state.locals) =
        .ok results ∧
      List.Forall₂ (Renewed plan state main (plan.substitution state)) part results := by
  induction renewed with
  | nil => exact ⟨[], rfl, .nil⟩
  | cons first _ inductionHypothesis =>
    rw [List.cons_subset] at inside
    obtain ⟨result, resultOk, resultRenewed⟩ :=
      readInstance_run ground coherent declared inside.1 found first
    obtain ⟨results, resultsOk, resultsRenewed⟩ := inductionHypothesis inside.2
    exact ⟨result :: results, by simp [resultOk, resultsOk], .cons resultRenewed resultsRenewed⟩

end Threading

end ShaderPipeline
