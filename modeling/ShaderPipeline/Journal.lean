import ShaderPipeline.Lowering
import ShaderPipeline.Text.Program

/-!
# The journal of a lowering

A journal is what an observer writes down. It shows the program after every
category, and the program that breaks a rule. Writing a program can itself fail;
then the journal ends there, and that failure counts.
-/

namespace ShaderPipeline

/-- An entry of a journal. -/
inductive JournalEntry where
  /-- A lowering began. -/
  | started
  /-- The variables of a category were gathered. -/
  | gathered (category : Category) (members : Nat) (bridged : Bool) (dependents : Nat)
  /-- The program after a category was done. -/
  | lowered (category : Category) (text : String)
  /-- A lowering failed with an error that is reported. -/
  | failed (error : Error)
  /-- The program that breaks a rule. -/
  | invalid (text : String)

namespace JournalEntry

/-- How serious an entry is. -/
def level : JournalEntry → String
  | started => "INFO"
  | gathered _ _ _ _ => "DEBUG"
  | lowered _ _ => "TRACE"
  | failed _ => "WARN"
  | invalid _ => "ERROR"

/-- What an entry says; the start of a lowering is only named. -/
def message : JournalEntry → String
  | started => "rewrite_pipelines"
  | gathered _ _ _ _ => "rewriting pipeline"
  | lowered _ text => "after rewriting pipeline:\n" ++ text
  | failed _ => "failed to rewrite pipelines"
  | invalid text => "Invalid ANGLE IR:\n" ++ text

end JournalEntry

namespace Journal

/-- Steps that write a journal, which stays when they fail. -/
abbrev Journaled := ExceptT Failure (StateM (List JournalEntry))

/-- Adds an entry at the end. -/
def write (entry : JournalEntry) : Journaled Unit := modify (· ++ [entry])

/-- Writes down what an observer is told. -/
def observe : Event → Journaled Unit
  | .gathered category members bridged dependents =>
    write (.gathered category members bridged dependents)
  | .lowered category program => do
    write (.lowered category (← Lowering.lift program.text))
  | .invalid program => do
    write (.invalid (← Lowering.lift program.text))

/-- Runs steps on an empty journal. -/
def run {α : Type} (steps : Journaled α) : List JournalEntry × Result α :=
  let (outcome, entries) := (ExceptT.run steps).run []
  (entries, outcome)

end Journal

/-- Checks a program and keeps a journal. -/
def Program.checkJournaled (program : Program) : List JournalEntry × Result Unit :=
  Journal.run (Lowering.audit Journal.observe program)

/-- Lowers all categories of a shader and keeps a journal. -/
def Shader.lowerJournaled (shader : Shader) (supplied : Option VariableId) :
    List JournalEntry × Result (CategoryStructs × Shader) :=
  let (entries, outcome) :=
    Journal.run (Lowering.lowerCategories Journal.observe supplied Category.all shader)
  match outcome with
  | .error (.reported error) => (.started :: entries ++ [.failed error], outcome)
  | _ => (.started :: entries, outcome)

end ShaderPipeline
