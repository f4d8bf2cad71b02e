import ShaderPipeline.Constant

/-!
# Variables and functions

What the tables hold about a variable and about the signature of a function. The
body of a function is not here: it stands in the list of global declarations.
-/

namespace ShaderPipeline

/-- The stage of the graphics pipeline that a shader runs in. -/
inductive Stage where
  | vertex
  | fragment
  | compute
deriving DecidableEq

/-- Where a variable is declared. -/
inductive Scope where
  | global
  | local
  | parameter
deriving DecidableEq

/-- The memory that a reference points into. -/
inductive AddressSpace where
  | thread
  | device
  | constant
deriving DecidableEq

/-- A variable. It is a reference rather than a value if `reference` is set. -/
structure Variable where
  name : Name
  type : TypeId
  precision : Precision := .notApplicable
  decorations : List Decoration := []
  builtIn : Option BuiltIn := none
  initializer : Option Constant := none
  scope : Scope
  isConst : Bool := false
  reference : Option AddressSpace := none
  eliminated : Bool := false
deriving DecidableEq

namespace Variable

/-- Interface variables are declared by the other side whether they are used or not. -/
def isInterface (entry : Variable) : Bool :=
  !entry.decorations.isEmpty || entry.builtIn.isSome

end Variable

/-- How the value of a parameter travels. -/
inductive Direction where
  | input
  | output
  | inputOutput
deriving DecidableEq

/-- A parameter of a function: a variable and the way its value travels. -/
structure Param where
  variableId : VariableId
  direction : Direction
deriving DecidableEq

/-- The signature of a function. -/
structure Function where
  name : Name
  params : List Param
  returnType : TypeId
  returnPrecision : Precision
deriving DecidableEq

namespace Function

/-- The text of the entry point's name. -/
def mainText : String := "main"

/-- A function as the shader declares it: only the name of the entry point is kept exactly. -/
def named (text : String) (params : List Param) (returnType : TypeId)
    (returnPrecision : Precision) : Function where
  name := if text = mainText then .exact text else .temporary text
  params := params
  returnType := returnType
  returnPrecision := returnPrecision

/-- Whether a function is the entry point; a copy of it with another signature still is. -/
def isMain (function : Function) : Bool :=
  function.name.text == mainText && function.name.source == .internal

/-- The same function with one more parameter in front. -/
def prepend (function : Function) (param : Param) : Function :=
  { function with params := param :: function.params }

/-- The same function with more parameters at the end. -/
def append (function : Function) (params : List Param) : Function :=
  { function with params := function.params ++ params }

/-- The same function returning another type. -/
def returning (function : Function) (type : TypeId) : Function :=
  { function with returnType := type, returnPrecision := .notApplicable }

end Function

end ShaderPipeline
