/-!
# Identities and names

Types, variables and functions live in tables and are referred to by their
position in the table. A name is a text together with its source, which decides
how the text is spelled when a shader is written out.
-/

namespace ShaderPipeline

/-- The position of a type in the type table. -/
structure TypeId where
  index : Nat
deriving DecidableEq

/-- The position of a variable in the variable table. -/
structure VariableId where
  index : Nat
deriving DecidableEq

/-- The position of a function in the function table. -/
structure FunctionId where
  index : Nat
deriving DecidableEq

/-- Where a name came from. -/
inductive NameSource where
  /-- Written in the shader for an input, output or resource, and spelled with the user mark. -/
  | shaderInterface
  /-- Reserved for the compiler or for the entry point, and spelled exactly. -/
  | internal
  /-- Free to change: it is told apart from its namesakes by an identity. -/
  | temporary
deriving DecidableEq

/-- The name of a variable, a function, a struct or a struct field. -/
structure Name where
  text : String
  source : NameSource
deriving DecidableEq

namespace Name

/-- A name that may be changed freely. -/
def temporary (text : String) : Name := ⟨text, .temporary⟩

/-- A name that is spelled exactly as given. -/
def exact (text : String) : Name := ⟨text, .internal⟩

/-- The mark in front of names that the shader's author chose for its interface. -/
def userMark : String := "_u"

/-- How a name is spelled for an entity with the given identity: interface names carry the user
mark, temporary names end in the identity, internal names stand as they are. -/
def spell (name : Name) (identity : Nat) : String :=
  match name.source with
  | .shaderInterface => userMark ++ name.text
  | .temporary => name.text ++ "_" ++ toString identity
  | .internal => name.text

end Name

end ShaderPipeline
