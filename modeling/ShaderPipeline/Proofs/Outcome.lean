import Mathlib.Data.List.Forall2
import ShaderPipeline.Failure

/-!
# Reading outcomes

An operation that can fail is a chain of steps. The lemmas here take such a
chain apart: it succeeds exactly if its steps do, and a walk over a list
succeeds exactly if every element does.
-/

namespace ShaderPipeline

namespace Outcome

variable {α β : Type}

/-- A chain succeeds exactly if its first step does and the rest goes on from there. -/
@[simp] theorem bind_eq_ok_iff {first : Result α} {next : α → Result β} {value : β} :
    first >>= next = .ok value ↔ ∃ middle, first = .ok middle ∧ next middle = .ok value := by
  cases first with
  | error failure => simp [bind, Except.bind]
  | ok middle => simp [bind, Except.bind]

/-- A step without a value has only one way to succeed. -/
@[simp] theorem exists_unit {rule : Unit → Prop} : (∃ nothing, rule nothing) ↔ rule () :=
  ⟨fun ⟨_, holds⟩ => holds, fun holds => ⟨(), holds⟩⟩

/-- A check that does not fail succeeds. -/
theorem eq_ok_of_isOk {outcome : Result Unit} (succeeds : outcome.isOk = true) :
    outcome = .ok () := by
  cases outcome with
  | error failure => simp [Except.isOk, Except.toBool] at succeeds
  | ok nothing => rfl

/-- An outcome that passes a test is a value that does. -/
theorem exists_ok_of_any {outcome : Result α} {test : α → Bool}
    (passes : outcome.toOption.any test = true) : ∃ value, outcome = .ok value ∧ test value = true := by
  cases outcome with
  | error failure => simp [Except.toOption] at passes
  | ok value => exact ⟨value, rfl, passes⟩

/-- A chain whose first step succeeded goes on with its value. -/
@[simp] theorem ok_bind (middle : α) (next : α → Result β) :
    (Except.ok middle : Result α) >>= next = next middle := rfl

/-- What comes after a step matters only where the step succeeds. -/
theorem bind_congr_of_ok {first : Result α} {next other : α → Result β}
    (same : ∀ value, first = .ok value → next value = other value) :
    first >>= next = first >>= other := by
  cases first with
  | error failure => rfl
  | ok value => exact same value rfl

/-- Giving a value is succeeding with it. -/
@[simp] theorem pure_eq_ok (value : α) : (pure value : Result α) = .ok value := rfl

@[simp] theorem fault_ne_ok {cause : Fault} {value : α} : fault cause ≠ .ok value := by
  simp [fault]

@[simp] theorem defect_ne_ok {cause : Defect} {value : α} : defect cause ≠ .ok value := by
  simp [defect]

@[simp] theorem report_ne_ok {error : Error} {value : α} : report error ≠ .ok value := by
  simp [report]

/-- A walk that looks at every element succeeds exactly if every look does. -/
theorem forM_eq_ok_iff {look : α → Result Unit} {entries : List α} :
    entries.forM look = .ok () ↔ ∀ entry ∈ entries, look entry = .ok () := by
  simp only [List.forM_eq_forM]
  induction entries with
  | nil => simp
  | cons entry entries inductionHypothesis =>
    simp only [List.forM_cons, bind_eq_ok_iff, exists_unit, inductionHypothesis,
      List.forall_mem_cons]

/-- A walk that changes every element succeeds exactly if every change does, in order. -/
theorem mapM_eq_ok_iff {change : α → Result β} {entries : List α} {changed : List β} :
    entries.mapM change = .ok changed ↔
      List.Forall₂ (fun entry result => change entry = .ok result) entries changed := by
  induction entries generalizing changed with
  | nil => cases changed <;> simp
  | cons entry entries inductionHypothesis =>
    simp only [List.mapM_cons, bind_eq_ok_iff, pure_eq_ok, Except.ok.injEq, inductionHypothesis]
    constructor
    · rintro ⟨result, headOk, rest, tailOk, rfl⟩
      exact .cons headOk tailOk
    · intro walked
      cases walked with
      | cons headOk tailOk => exact ⟨_, headOk, _, tailOk, rfl⟩

/-- If every change succeeds with the result of a plain function, so does the walk. -/
theorem mapM_eq_ok_map {change : α → Result β} {plain : α → β} {entries : List α}
    (changes : ∀ entry ∈ entries, change entry = .ok (plain entry)) :
    entries.mapM change = .ok (entries.map plain) := by
  induction entries with
  | nil => rfl
  | cons entry entries inductionHypothesis =>
    have head : change entry = .ok (plain entry) := changes entry (by simp)
    have tail : entries.mapM change = .ok (entries.map plain) :=
      inductionHypothesis fun other member => changes other (by simp [member])
    simp [head, tail]

/-- A walk whose every change succeeds does. -/
theorem exists_mapM_ok {change : α → Result β} {entries : List α}
    (changes : ∀ entry ∈ entries, ∃ result, change entry = .ok result) :
    ∃ changed, entries.mapM change = .ok changed := by
  induction entries with
  | nil => exact ⟨[], rfl⟩
  | cons entry entries inductionHypothesis =>
    rw [List.forall_mem_cons] at changes
    obtain ⟨result, head⟩ := changes.1
    obtain ⟨changed, tail⟩ := inductionHypothesis changes.2
    exact ⟨result :: changed, by simp [head, tail]⟩

/-- What corresponds to an element of the second list is in the first. -/
theorem forall₂_exists_left {related : α → β → Prop} {first : List α} {second : List β}
    (both : List.Forall₂ related first second) {right : β} (member : right ∈ second) :
    ∃ left ∈ first, related left right := by
  induction both with
  | nil => simp at member
  | cons head _ inductionHypothesis =>
    rcases List.mem_cons.mp member with rfl | later
    · exact ⟨_, by simp, head⟩
    · obtain ⟨left, inside, holds⟩ := inductionHypothesis later
      exact ⟨left, by simp [inside], holds⟩

/-- What corresponds to an element of the first list is in the second. -/
theorem forall₂_exists_right {related : α → β → Prop} {first : List α} {second : List β}
    (both : List.Forall₂ related first second) {left : α} (member : left ∈ first) :
    ∃ right ∈ second, related left right :=
  forall₂_exists_left both.flip member

/-- Corresponding lists correspond in a weaker way, if elements of the first one do. -/
theorem forall₂_imp_mem {related weaker : α → β → Prop} {first : List α} {second : List β}
    (both : List.Forall₂ related first second)
    (weakens : ∀ left ∈ first, ∀ right, related left right → weaker left right) :
    List.Forall₂ weaker first second := by
  induction both with
  | nil => exact .nil
  | cons head _ inductionHypothesis =>
    rw [List.forall_mem_cons] at weakens
    exact .cons (weakens.1 _ head) (inductionHypothesis weakens.2)

/-! ## Outcomes with one possible error -/

/-- The outcome is a value with the wanted property, or the one error that its cause explains. No
other failure is possible. -/
def Settles (cause : Prop) (error : Error) (outcome : Result α) (wanted : α → Prop) : Prop :=
  (outcome = report error ∧ cause) ∨ ∃ value, outcome = .ok value ∧ wanted value

variable {cause : Prop} {error : Error}

/-- A success settles with its value. -/
theorem Settles.ok {value : α} {wanted : α → Prop} (holds : wanted value) :
    Settles cause error (.ok value) wanted := .inr ⟨value, rfl, holds⟩

/-- A chain of settled steps is settled. -/
theorem Settles.bind {first : Result α} {next : α → Result β} {middle : α → Prop}
    {wanted : β → Prop} (settled : Settles cause error first middle)
    (goesOn : ∀ value, middle value → Settles cause error (next value) wanted) :
    Settles cause error (first >>= next) wanted := by
  rcases settled with ⟨rfl, explained⟩ | ⟨value, rfl, holds⟩
  · exact .inl ⟨rfl, explained⟩
  · exact goesOn value holds

/-- What an operation settles with may be weakened. -/
theorem Settles.imp {outcome : Result α} {less more : α → Prop}
    (settled : Settles cause error outcome less) (weaker : ∀ value, less value → more value) :
    Settles cause error outcome more := by
  rcases settled with refused | ⟨value, same, holds⟩
  · exact .inl refused
  · exact .inr ⟨value, same, weaker value holds⟩

end Outcome

end ShaderPipeline
