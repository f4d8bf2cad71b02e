import ShaderPipeline.Journal
import ShaderPipeline.Tree.Script

/-!
# Requests and answers

Everything that can be asked of a shader, one request for each operation of the
library, and what it answers.
-/

namespace ShaderPipeline

/-- An operation on a shader. -/
inductive Request where
  -- Types.
  | imageType (kind : ImageKind)
  | textureType (kind : ImageKind)
  | textureEnv (kind : ImageKind)
  | vectorType (component : Scalar) (size : Nat)
  | arrayType (element : TypeId) (size : Nat)
  | pointerType (pointee : TypeId)
  | findPointer (pointee : TypeId)
  /-- Adds a struct that may have no fields. -/
  | addStruct (name : Name) (fields : List Field)
  | createStruct (name : Name) (fields : List Field)
  | describeType (type : TypeId)
  | structName (type : TypeId)
  -- Variables and functions.
  | declare (entry : Variable)
  | createInstance (type : TypeId) (name : Name) (scope : Scope)
  | createParam (name : Name) (type : TypeId) (precision : Precision)
  | markReference (id : VariableId) (space : AddressSpace)
  | eliminate (id : VariableId)
  /-- Adds a function; a given source replaces the one that its name would have. -/
  | addFunction (text : String) (source : Option NameSource) (params : List Param)
      (returnType : TypeId) (returnPrecision : Precision)
  | prependParam (function : FunctionId) (param : Param)
  | appendParams (function : FunctionId) (params : List Param)
  | changeReturn (function : FunctionId) (type : TypeId)
  -- The tree and the tables.
  | addGlobal (global : Global)
  | insertGlobals (place : Nat) (globals : List Global)
  | findMain
  | body (function : FunctionId)
  | types (first : Nat)
  | vars
  | functions
  | globals
  | text
  -- Expressions.
  | typeOf (expr : Expr)
  | hasEffect (expr : Expr)
  | findField (type : TypeId) (text : String)
  | selectField (expr : Expr) (text : String)
  -- Invariance and reflection.
  | markInvariant (id : VariableId)
  | markFieldInvariant (type : TypeId) (position : Nat)
  | invariance
  | recordName (id : VariableId) (name : String)
  | reflection
  -- Walks and scripted changes.
  | outline
  | mapStatements (drop duplicate : List StmtKind)
  | rebuild (script : Script)
  -- Passes.
  | check (journaled : Bool)
  | prune
  | dependents (ids : List VariableId)
  | createBridge (type : TypeId) (name : Name) (rules : LayoutRules) (place : Option Nat)
  | describeCategory (category : Category)
  | classify (id : VariableId) (supplied : Option VariableId)
  | describePair (pair : Scoped Nat)
  | lower (supplied : Option VariableId) (journaled : Bool)

/-- What an operation answers. -/
inductive Answer where
  | nothing
  | type (id : TypeId)
  | optionalType (id : Option TypeId)
  | typeEntry (entry : Ty)
  | name (name : Name)
  | variableId (id : VariableId)
  | functionId (id : FunctionId)
  | count (number : Nat)
  | main (found : Option (Nat × FunctionId))
  | body (found : Option Block)
  | types (entries : List Ty)
  | vars (entries : List Variable)
  | functions (entries : List Function)
  | globals (entries : List Global)
  | text (text : String)
  | flag (holds : Bool)
  | expr (expr : Expr)
  /-- The known invariant variables and fields, and whether nothing at all is registered. -/
  | invariance (vars : List VariableId) (fields : List (TypeId × Nat)) (empty : Bool)
  /-- The recorded names of known variables, and the number of all recorded names. -/
  | reflection (names : List (VariableId × String)) (count : Nat)
  | outline (bodies : List BodyOutline)
  | statements (seen : List StmtSeen)
  | rebuilt (asked : List Asked) (failure : Option Error)
  | valid
  | functionIds (ids : List FunctionId)
  | bridge (found : Option Bridge)
  | category (category : Category)
  | categories (categories : List Category)
  | pair (pair : Scoped Nat)
  | structs (structs : CategoryStructs)

/-- The outcome of a request, and the journal if one was asked for. -/
structure Response where
  outcome : Result Answer
  journal : Option (List JournalEntry)

end ShaderPipeline
