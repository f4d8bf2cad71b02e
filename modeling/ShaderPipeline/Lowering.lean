import ShaderPipeline.Dependents
import ShaderPipeline.Prune
import ShaderPipeline.Threading.Program
import ShaderPipeline.Validity

/-!
# Lowering a shader

Lowering takes the categories one after the other. For each of them it gathers
the variables, threads the instance through the functions that depend on them,
prunes, and checks the result. It is one function over a monad: an observer is
told of every step and may itself stop the work. Without an observer it is a
plain function from shaders to shaders, and on failure there is no new shader.
-/

namespace ShaderPipeline

/-- What an observer of a lowering is told. -/
inductive Event where
  /-- The variables of a category were gathered. -/
  | gathered (category : Category) (members : Nat) (bridged : Bool) (dependents : Nat)
  /-- A category is done. -/
  | lowered (category : Category) (program : Program)
  /-- A program breaks a rule. -/
  | invalid (program : Program)

/-- The structs of every category, in the order of processing. -/
abbrev CategoryStructs := List (Category × Scoped TypeId)

/-- Whether a failure is a broken rule of validity. -/
def Failure.isViolation : Failure → Bool
  | .fatal (.defect (.invalid _)) => true
  | _ => false

/-- The gathered variables are mentioned nowhere any more. -/
def Tables.eliminateAll (tables : Tables) : List VariableId → Result Tables
  | [] => .ok tables
  | id :: ids => do (← tables.eliminate id).eliminateAll ids

/-- Threads a gathered category through a shader and prunes what is left over. -/
def Shader.install (shader : Shader) (gathering : Gathering) (dependents : List FunctionId) :
    Result Shader := do
  let shader ← shader.thread gathering dependents
  let tables ← shader.program.tables.eliminateAll gathering.members
  let program ← { shader.program with tables }.prune
  return { shader with program }

/-- The supplied uniforms concern one category only. -/
def Category.suppliedTo (category : Category) (supplied : Option VariableId) :
    Option VariableId :=
  if category = .suppliedUniforms then supplied else none

namespace Lowering

variable {m : Type → Type} [Monad m] [MonadExceptOf Failure m]

/-- An outcome as a step in any monad that can fail. -/
def lift {α : Type} : Result α → m α
  | .ok value => pure value
  | .error failure => throw failure

/-- Where outcomes are the steps themselves, nothing changes. -/
@[simp] theorem lift_eq_self {α : Type} (outcome : Result α) :
    (lift outcome : Result α) = outcome := by
  cases outcome <;> rfl

/-- Checks a program. An observer is told of a violation before the check fails. -/
def audit (observe : Event → m Unit) (program : Program) : m Unit :=
  match program.check with
  | .ok () => pure ()
  | .error failure => do
    if failure.isViolation then
      observe (.invalid program)
    throw failure

/-- Lowers one category. -/
def lowerCategory (observe : Event → m Unit) (supplied : Option VariableId) (shader : Shader)
    (category : Category) : m (Scoped TypeId × Shader) := do
  match ← lift (shader.gather category (category.suppliedTo supplied)) with
  | (none, shader) => return ({}, shader)
  | (some gathering, shader) =>
    let dependents := shader.program.dependents gathering.members.contains
    observe (.gathered category gathering.members.length gathering.outer.isSome
      dependents.length)
    let shader ← lift (shader.install gathering dependents)
    audit observe shader.program
    observe (.lowered category shader.program)
    return (gathering.structs, shader)

/-- Lowers several categories in order. -/
def lowerCategories (observe : Event → m Unit) (supplied : Option VariableId) :
    List Category → Shader → m (CategoryStructs × Shader)
  | [], shader => return ([], shader)
  | category :: rest, shader => do
    let (structs, shader) ← lowerCategory observe supplied shader category
    let (others, shader) ← lowerCategories observe supplied rest shader
    return ((category, structs) :: others, shader)

end Lowering

/-- Lowers all categories of a shader. -/
def Shader.lower (shader : Shader) (supplied : Option VariableId) :
    Result (CategoryStructs × Shader) :=
  Lowering.lowerCategories (fun _ => .ok ()) supplied Category.all shader

end ShaderPipeline
