import ShaderPipeline.Category.Basic
import ShaderPipeline.Name

/-!
# Failures

An operation fails in one of two ways. An `Error` is reported to the caller, who
can go on. A `Fault` means that the shader breaks a rule that its makers are
trusted to keep, and nothing can be done with it afterwards. Every cause is a
constructor of its own, and its wording is in one place.
-/

namespace ShaderPipeline

/-- A failure that the caller is told about and can recover from. -/
inductive Error where
  /-- The shader has no entry point. -/
  | missingMain
  /-- The entry point returns a value, so it cannot return a category's struct. -/
  | nonVoidMain (category : Category)
  /-- A function has no first parameter that holds a category's struct. -/
  | missingInstance (function : String) (category : Category)
  /-- A struct has no field of the given name. -/
  | missingField (struct field : String)

/-- The wording of a reported error. -/
def Error.message : Error → String
  | .missingMain => "the shader does not define main()"
  | .nonVoidMain category =>
      "main() must return void for the " ++ category.label ++ " pipeline to return its struct"
  | .missingInstance function category =>
      "function `" ++ function ++ "` has no parameter holding the " ++ category.label ++
        " pipeline struct"
  | .missingField struct field =>
      "struct `" ++ struct ++ "` has no field named `" ++ field ++ "`"

/-- A rule for whole shaders that is broken. -/
inductive Violation where
  | mainCount (found : Nat)
  | unknownVariable (id : VariableId)
  | declaredEliminated (id : VariableId)
  | wrongScope (id : VariableId)
  | strayReference (id : VariableId)
  | returnMismatch (function : FunctionId)
  | notInScope (id : VariableId)
  | referencedEliminated (id : VariableId)
  | fieldOfNonStruct (position : Nat)
  | fieldOutOfRange (position : Nat)
  | notIndexable
  | undeclaredCall (function : FunctionId)
  | argumentCount (function : FunctionId) (given expected : Nat)

/-- The wording of a broken rule. -/
def Violation.message : Violation → String
  | .mainCount found => "expected exactly one main(), found " ++ toString found
  | .unknownVariable id => "invalid variable id " ++ toString id.index
  | .declaredEliminated id => "variable " ++ toString id.index ++ " is declared but eliminated"
  | .wrongScope id => "variable " ++ toString id.index ++ " is declared in the wrong scope"
  | .strayReference id =>
      "variable " ++ toString id.index ++ " is a reference but not a parameter"
  | .returnMismatch function =>
      "return value of function " ++ toString function.index ++
        " does not match its return type"
  | .notInScope id => "variable " ++ toString id.index ++ " is not declared in scope"
  | .referencedEliminated id =>
      "variable " ++ toString id.index ++ " is eliminated but referenced"
  | .fieldOfNonStruct position =>
      "field " ++ toString position ++ " selected from a non-struct"
  | .fieldOutOfRange position => "field " ++ toString position ++ " is out of range"
  | .notIndexable => "indexing a type that is not indexable"
  | .undeclaredCall function => "call to undeclared function " ++ toString function.index
  | .argumentCount function given expected =>
      "call to function " ++ toString function.index ++ " with " ++ toString given ++
        " arguments instead of " ++ toString expected

/-- A request that no well-formed shader leads to. -/
inductive Defect where
  | notVectorable
  | expectedStruct
  | notIndexable
  | vectorOfVoid
  | vectorOfNonScalar
  | expectedSampler
  | expectedPointer
  | missingLocal
  /-- The shader as a whole breaks a rule. -/
  | invalid (violation : Violation)

/-- The wording of a defect. -/
def Defect.message : Defect → String
  | .notVectorable => "Internal error: Not a vector-able type"
  | .expectedStruct => "Internal error: Expected struct type"
  | .notIndexable => "Internal error: Indexing a type that is not indexable"
  | .vectorOfVoid => "Internal error: Vector of void"
  | .vectorOfNonScalar => "Internal error: Vector of non-scalar type"
  | .expectedSampler => "Internal error: Expected a sampler type"
  | .expectedPointer => "Internal error: Expected a pointer in texture environment"
  | .missingLocal => "Internal error: Missing pipeline local variable in main"
  | .invalid violation => "Internal error: Invalid ANGLE IR! " ++ violation.message

/-- A failure after which the shader is not to be used any more. -/
inductive Fault where
  | defect (cause : Defect)
  /-- An assumption about the arguments of an operation does not hold. -/
  | assertion
  /-- An identity or a position that its table or list does not have. -/
  | outOfRange
  /-- A type that contains itself, so that reading it never ends. -/
  | endlessType

/-- Why an operation failed. -/
inductive Failure where
  | reported (error : Error)
  | fatal (fault : Fault)

/-- The outcome of an operation that can fail. -/
abbrev Result := Except Failure

/-- Stops with an error that the caller can recover from. -/
def report {α : Type} (error : Error) : Result α := .error (.reported error)

/-- Stops for good. -/
def fault {α : Type} (cause : Fault) : Result α := .error (.fatal cause)

/-- Stops for good because of a defect. -/
def defect {α : Type} (cause : Defect) : Result α := fault (.defect cause)

/-- Goes on only if an assumption holds. -/
def ensure (holds : Bool) : Result Unit :=
  if holds then .ok () else fault .assertion

/-- The entry that a look-up found, which has to be there. -/
def found {α : Type} : Option α → Result α
  | some entry => .ok entry
  | none => fault .outOfRange

/-- A look-up succeeds with exactly the entry it found. -/
@[simp] theorem found_eq_ok_iff {α : Type} {entry : Option α} {value : α} :
    found entry = .ok value ↔ entry = some value := by
  cases entry <;> simp [found, fault]

/-- An assumption lets an operation go on exactly if it holds. -/
@[simp] theorem ensure_eq_ok_iff {holds : Bool} : ensure holds = .ok () ↔ holds = true := by
  cases holds <;> simp [ensure, fault]

end ShaderPipeline
