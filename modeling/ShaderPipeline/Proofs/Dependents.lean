import Mathlib.Data.List.Nodup
import ShaderPipeline.Dependents
import ShaderPipeline.Proofs.Tree

/-!
# Closure of the dependent functions

If every function is defined once, the dependent functions are defined ones, and
they contain every function whose body mentions a wanted variable or calls a
dependent function. The rounds stop growing because every round but the last
adds a function that the program defines.
-/

namespace ShaderPipeline

namespace Dependents

variable {usages : List Usage} {found : List FunctionId}

/-- A round adds no function if the ones found already have all their callers. -/
def Closed (usages : List Usage) (found : List FunctionId) : Prop :=
  ∀ usage ∈ usages, usage.callsAny found → usage.function ∈ found

/-- A round forgets no function. -/
theorem subset_grow : found ⊆ grow usages found := by
  intro function member
  exact List.mem_append_left _ member

/-- Nor do several rounds. -/
theorem subset_growTimes (times : Nat) : found ⊆ growTimes usages times found := by
  induction times generalizing found with
  | zero => exact fun _ member => member
  | succ times inductionHypothesis =>
    exact fun _ member => inductionHypothesis (subset_grow member)

/-- Nothing grows once the callers are complete. -/
theorem grow_eq_self (closed : Closed usages found) : grow usages found = found := by
  simp only [grow, List.append_right_eq_self, List.map_eq_nil_iff, List.filter_eq_nil_iff]
  intro usage member
  have here := closed usage member
  grind

/-- Once all callers are found, further rounds change nothing. -/
theorem growTimes_eq_self (closed : Closed usages found) (times : Nat) :
    growTimes usages times found = found := by
  induction times with
  | zero => rfl
  | succ times inductionHypothesis => rw [growTimes, grow_eq_self closed, inductionHypothesis]

/-- How many usages belong to functions that were not found yet. -/
def missing (usages : List Usage) (found : List FunctionId) : Nat :=
  usages.countP fun usage => !found.contains usage.function

private theorem countP_lt_countP {α : Type} {less more : α → Bool} {entries : List α} {entry : α}
    (weaker : ∀ other ∈ entries, less other → more other) (member : entry ∈ entries)
    (counted : more entry) (uncounted : less entry = false) :
    entries.countP less < entries.countP more := by
  obtain ⟨front, back, rfl⟩ := List.append_of_mem member
  have frontLe : front.countP less ≤ front.countP more :=
    List.countP_mono_left fun other inside => weaker other (by simp [inside])
  have backLe : back.countP less ≤ back.countP more :=
    List.countP_mono_left fun other inside => weaker other (by simp [inside])
  simp only [List.countP_append, List.countP_cons, counted, uncounted, if_true]
  simp
  omega

/-- Unless the callers are complete, a round finds a function that was missing. -/
theorem missing_grow_lt (incomplete : ¬ Closed usages found) :
    missing usages (grow usages found) < missing usages found := by
  simp only [Closed, not_forall] at incomplete
  obtain ⟨usage, member, calls, absent⟩ := incomplete
  have added : usage.function ∈ grow usages found := by
    refine List.mem_append_right _ (List.mem_map.mpr ⟨usage, ?_, rfl⟩)
    simp [member, calls, absent]
  refine countP_lt_countP (fun other _ missed => ?_) member (by simpa using absent)
    (by simpa using added)
  have outside : other.function ∉ grow usages found := by simpa using missed
  have earlier : other.function ∉ found := fun known => outside (subset_grow known)
  simpa using earlier

/-- As many rounds as there are missing functions complete the callers. -/
theorem closed_growTimes {times : Nat} (enough : missing usages found ≤ times) :
    Closed usages (growTimes usages times found) := by
  induction times generalizing found with
  | zero =>
    by_contra incomplete
    have fewer := missing_grow_lt incomplete
    simp only [growTimes] at fewer
    omega
  | succ times inductionHypothesis =>
    by_cases complete : Closed usages found
    · rw [growTimes_eq_self complete]
      exact complete
    · have fewer := missing_grow_lt complete
      exact inductionHypothesis (by omega)

/-- A round finds nothing outside of what has all its callers. -/
theorem growTimes_subset {known : List FunctionId} (times : Nat) (closed : Closed usages known)
    (inside : found ⊆ known) : growTimes usages times found ⊆ known := by
  induction times generalizing found with
  | zero => exact inside
  | succ times inductionHypothesis =>
    refine inductionHypothesis fun function member => ?_
    rcases List.mem_append.mp member with earlier | added
    · exact inside earlier
    · obtain ⟨usage, chosen, rfl⟩ := List.mem_map.mp added
      obtain ⟨own, test⟩ := List.mem_filter.mp chosen
      obtain ⟨callee, called, isFound⟩ := List.any_eq_true.mp (Bool.and_eq_true_iff.mp test).2
      exact closed usage own (List.any_eq_true.mpr ⟨callee, called,
        List.contains_iff_mem.mpr (inside (List.contains_iff_mem.mp isFound))⟩)

/-- Everything that was found was found for a reason. -/
def Justified (usages : List Usage) (found : List FunctionId) : Prop :=
  ∀ function ∈ found, ∃ usage ∈ usages, usage.function = function ∧
    (usage.direct = true ∨ usage.callsAny found = true)

/-- A round only finds functions for a reason. -/
theorem Justified.grow (justified : Justified usages found) : Justified usages (grow usages found) := by
  have wider (usage : Usage) (calls : usage.callsAny found = true) :
      usage.callsAny (Dependents.grow usages found) = true := by
    obtain ⟨callee, called, inside⟩ := List.any_eq_true.mp calls
    exact List.any_eq_true.mpr ⟨callee, called,
      List.contains_iff_mem.mpr (subset_grow (List.contains_iff_mem.mp inside))⟩
  intro function member
  rcases List.mem_append.mp member with earlier | added
  · obtain ⟨usage, own, same, reason⟩ := justified function earlier
    exact ⟨usage, own, same, reason.imp_right (wider usage)⟩
  · obtain ⟨usage, chosen, rfl⟩ := List.mem_map.mp added
    obtain ⟨own, test⟩ := List.mem_filter.mp chosen
    exact ⟨usage, own, rfl, .inr (wider usage (Bool.and_eq_true_iff.mp test).2)⟩

/-- So do several rounds. -/
theorem Justified.growTimes (justified : Justified usages found) (times : Nat) :
    Justified usages (growTimes usages times found) := by
  induction times generalizing found with
  | zero => exact justified
  | succ times inductionHypothesis => exact inductionHypothesis justified.grow

/-- Where every function is defined once, no definition is dropped. -/
theorem lastDefinitions_eq_self {definitions : List (FunctionId × Block)}
    (once : (definitions.map Prod.fst).Nodup) : lastDefinitions definitions = definitions := by
  induction definitions with
  | nil => rfl
  | cons definition rest inductionHypothesis =>
    simp only [List.map_cons, List.nodup_cons] at once
    have absent : rest.any (fun other => other.1 == definition.1) = false := by
      simp only [List.any_eq_false, beq_iff_eq]
      exact fun other member same => once.1 (List.mem_map.mpr ⟨other, member, same⟩)
    simp [lastDefinitions, inductionHypothesis once.2, absent]

end Dependents

namespace Program

variable {program : Program} {wanted : VariableId → Bool} {function : FunctionId} {body : Block}

private theorem usage_mem (once : (program.definitions.map Prod.fst).Nodup)
    (defined : (function, body) ∈ program.definitions) :
    ⟨function, (Block.symbols body).any wanted, Block.calls body⟩ ∈
      Dependents.usages program wanted := by
  rw [Dependents.usages, Dependents.lastDefinitions_eq_self once]
  exact List.mem_map.mpr ⟨(function, body), defined, rfl⟩

/-- Every dependent function is defined by the program. -/
theorem dependents_subset : program.dependents wanted ⊆ program.definitions.map Prod.fst := by
  have lastSubset (definitions : List (FunctionId × Block)) :
      Dependents.lastDefinitions definitions ⊆ definitions := by
    induction definitions with
    | nil => exact fun _ member => member
    | cons definition rest inductionHypothesis =>
      intro other member
      simp only [Dependents.lastDefinitions] at member
      split at member
      · exact List.mem_cons_of_mem _ (inductionHypothesis member)
      · rcases List.mem_cons.mp member with rfl | later
        · exact List.mem_cons_self
        · exact List.mem_cons_of_mem _ (inductionHypothesis later)
  have known : ∀ usage ∈ Dependents.usages program wanted,
      usage.function ∈ program.definitions.map Prod.fst := by
    intro usage member
    obtain ⟨definition, last, rfl⟩ := List.mem_map.mp member
    exact List.mem_map.mpr ⟨definition, lastSubset _ last, rfl⟩
  refine Dependents.growTimes_subset _ (fun usage member _ => known usage member)
    fun other member => ?_
  obtain ⟨usage, chosen, rfl⟩ := List.mem_map.mp member
  exact known usage (List.mem_filter.mp chosen).1

/-- A dependent function mentions a wanted variable or calls a dependent function. -/
theorem mem_dependents_inv (once : (program.definitions.map Prod.fst).Nodup)
    (defined : (function, body) ∈ program.definitions)
    (dependent : function ∈ program.dependents wanted) :
    (∃ id ∈ Block.symbols body, wanted id = true) ∨
      ∃ callee ∈ Block.calls body, callee ∈ program.dependents wanted := by
  have start : Dependents.Justified (Dependents.usages program wanted)
      (((Dependents.usages program wanted).filter Usage.direct).map Usage.function) := by
    intro function member
    obtain ⟨usage, chosen, rfl⟩ := List.mem_map.mp member
    obtain ⟨own, direct⟩ := List.mem_filter.mp chosen
    exact ⟨usage, own, rfl, .inl direct⟩
  obtain ⟨usage, own, same, reason⟩ := start.growTimes _ function dependent
  rw [Dependents.usages, Dependents.lastDefinitions_eq_self once] at own
  obtain ⟨⟨other, otherBody⟩, otherDefined, rfl⟩ := List.mem_map.mp own
  obtain ⟨-, rfl⟩ : other = function ∧ otherBody = body :=
    Prod.ext_iff.mp (List.inj_on_of_nodup_map once otherDefined defined same)
  rcases reason with direct | calls
  · exact .inl (List.any_eq_true.mp direct)
  · obtain ⟨callee, called, found⟩ := List.any_eq_true.mp calls
    exact .inr ⟨callee, called, List.contains_iff_mem.mp found⟩

/-- A function that mentions a wanted variable is dependent. -/
theorem mem_dependents_of_symbol (once : (program.definitions.map Prod.fst).Nodup)
    (defined : (function, body) ∈ program.definitions) {id : VariableId}
    (mentioned : id ∈ Block.symbols body) (isWanted : wanted id) :
    function ∈ program.dependents wanted := by
  have direct : (⟨function, (Block.symbols body).any wanted, Block.calls body⟩ : Usage) ∈
      (Dependents.usages program wanted).filter Usage.direct :=
    List.mem_filter.mpr ⟨usage_mem once defined, List.any_eq_true.mpr ⟨id, mentioned, isWanted⟩⟩
  exact Dependents.subset_growTimes _ (List.mem_map.mpr ⟨_, direct, rfl⟩)

/-- A function that calls a dependent one is dependent. -/
theorem mem_dependents_of_call (once : (program.definitions.map Prod.fst).Nodup)
    (defined : (function, body) ∈ program.definitions) {callee : FunctionId}
    (called : callee ∈ Block.calls body) (dependent : callee ∈ program.dependents wanted) :
    function ∈ program.dependents wanted := by
  have enough : Dependents.missing (Dependents.usages program wanted)
      (((Dependents.usages program wanted).filter Usage.direct).map Usage.function) ≤
        (Dependents.usages program wanted).length := List.countP_le_length
  refine Dependents.closed_growTimes enough _ (usage_mem once defined) ?_
  exact List.any_eq_true.mpr ⟨callee, called, List.contains_iff_mem.mpr dependent⟩

/-- What has every function that mentions a wanted variable, and every caller of what it has, has the
dependent functions. -/
theorem dependents_least (once : (program.definitions.map Prod.fst).Nodup) {known : List FunctionId}
    (mentions : ∀ {function : FunctionId} {body : Block}, (function, body) ∈ program.definitions →
      ∀ id ∈ Block.symbols body, wanted id = true → function ∈ known)
    (calls : ∀ {function : FunctionId} {body : Block}, (function, body) ∈ program.definitions →
      ∀ callee ∈ Block.calls body, callee ∈ known → function ∈ known) :
    program.dependents wanted ⊆ known := by
  have defined : ∀ usage ∈ Dependents.usages program wanted, ∃ body,
      (usage.function, body) ∈ program.definitions ∧
        usage.direct = (Block.symbols body).any wanted ∧ usage.calls = Block.calls body := by
    intro usage member
    rw [Dependents.usages, Dependents.lastDefinitions_eq_self once] at member
    obtain ⟨definition, own, rfl⟩ := List.mem_map.mp member
    exact ⟨definition.2, own, rfl, rfl⟩
  refine Dependents.growTimes_subset _ (fun usage member callsAny => ?_) fun other member => ?_
  · obtain ⟨body, isDefined, -, isCalls⟩ := defined usage member
    obtain ⟨callee, called, isKnown⟩ := List.any_eq_true.mp callsAny
    exact calls isDefined callee (isCalls ▸ called) (List.contains_iff_mem.mp isKnown)
  · obtain ⟨usage, chosen, rfl⟩ := List.mem_map.mp member
    obtain ⟨own, isDirect⟩ := List.mem_filter.mp chosen
    obtain ⟨body, isDefined, direct, -⟩ := defined usage own
    obtain ⟨id, mentioned, isWanted⟩ := List.any_eq_true.mp (direct ▸ isDirect)
    exact mentions isDefined id mentioned isWanted

end Program

end ShaderPipeline
