import ShaderPipeline.Name

/-!
# Reflection

When a variable of the shader is split into several, every new variable is
recorded with the name it came from, so that resources can be bound by it.
-/

namespace ShaderPipeline

/-- The recorded names, at most one for a variable. -/
structure Reflection where
  names : List (VariableId × String) := []
deriving DecidableEq

namespace Reflection

/-- Records the name that a variable came from, in place of any earlier one. -/
def record (reflection : Reflection) (id : VariableId) (name : String) : Reflection :=
  ⟨(id, name) :: reflection.names.filter fun entry => entry.1 != id⟩

/-- The name that a variable came from. -/
def name? (reflection : Reflection) (id : VariableId) : Option String :=
  reflection.names.lookup id

/-- What is recorded for one variable says nothing about another. -/
theorem name?_record_of_ne {reflection : Reflection} {id other : VariableId} {name : String}
    (different : other ≠ id) : (reflection.record id name).name? other = reflection.name? other := by
  have skipped (names : List (VariableId × String)) :
      (names.filter fun entry => entry.1 != id).lookup other = names.lookup other := by
    induction names with
    | nil => rfl
    | cons entry names inductionHypothesis =>
      obtain ⟨key, text⟩ := entry
      by_cases dropped : key = id
      · simp [List.lookup_cons, dropped, inductionHypothesis, beq_false_of_ne different]
      · simp [List.lookup_cons, dropped, inductionHypothesis]
  simp [record, name?, List.lookup_cons, beq_false_of_ne different, skipped]

/-- How many variables have a recorded name. -/
def count (reflection : Reflection) : Nat := reflection.names.length

end Reflection

end ShaderPipeline
