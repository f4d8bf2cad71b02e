import ShaderPipeline.Name

/-!
# Invariance

Which variables and struct fields are qualified as invariant. When a variable
moves into a field, its qualifier is registered for the field too.
-/

namespace ShaderPipeline

/-- The invariant variables, and the invariant fields by struct and position. -/
structure Invariance where
  vars : List VariableId := []
  fields : List (TypeId × Nat) := []
deriving DecidableEq

namespace Invariance

/-- Registers a variable. -/
def insertVariable (invariance : Invariance) (id : VariableId) : Invariance :=
  { invariance with vars := invariance.vars.insert id }

/-- Registers a field. -/
def insertField (invariance : Invariance) (struct : TypeId) (position : Nat) : Invariance :=
  { invariance with fields := invariance.fields.insert (struct, position) }

/-- Registers the fields of a struct at several positions. -/
def insertFields (invariance : Invariance) (struct : TypeId) (chosen : List Nat) : Invariance :=
  chosen.foldl (fun registry position => registry.insertField struct position) invariance

def hasVariable (invariance : Invariance) (id : VariableId) : Bool :=
  invariance.vars.contains id

def hasField (invariance : Invariance) (struct : TypeId) (position : Nat) : Bool :=
  invariance.fields.contains (struct, position)

def isEmpty (invariance : Invariance) : Bool :=
  invariance.vars.isEmpty && invariance.fields.isEmpty

end Invariance

end ShaderPipeline
