import ShaderPipeline.Proofs.OrderlyRun
import ShaderPipeline.Proofs.Session
import ShaderPipeline.Text.Type

/-!
# Every type and declaration has a spelling

A type is spelled by following identities, and three things can go wrong: an
identity is missing, the way never ends, or a vector has components that no
vector has. Where types are made of earlier ones the first two are excluded, and
in a session vectors are never made, only found among the fixed types.
-/

namespace ShaderPipeline

namespace Tables

variable {tables before after : Tables}

/-! ## Vectors -/

/-- Every vector has components that a vector can be named after. -/
def VectorsNamed (tables : Tables) : Prop :=
  ∀ {index : Nat} {component : TypeId} {size : Nat},
    tables.types[index]? = some (.vector component size) →
      ∃ kind front, tables.types[component.index]? = some (.scalar kind) ∧
        kind.vectorText = .ok front

/-- Where types are kept, vectors can still be named after their components. -/
theorem KeepsTypes.vectorsNamed (keeps : before.KeepsTypes after) (named : before.VectorsNamed) :
    after.VectorsNamed := by
  intro index component size there
  rcases keeps.news there with old | made
  · obtain ⟨kind, front, known, spelled⟩ := named old
    exact ⟨kind, front, keeps.types known, spelled⟩
  · simp [Ty.isMade, Ty.isStruct, Ty.key?] at made

/-- They can be in the tables that a shader starts with. -/
theorem vectorsNamed_empty (stage : Stage) : ({ stage } : Tables).VectorsNamed := by
  have all : ∀ type ∈ predefinedTypes, ∀ component size, type = .vector component size →
      ∃ kind front, predefinedTypes[component.index]? = some (.scalar kind) ∧
        kind.vectorText = .ok front := by
    simp [predefinedTypes, Scalar.vectorText]
  intro index component size there
  rw [List.getElem?_toArray] at there
  simpa using all _ (List.mem_of_getElem? there) component size rfl

/-! ## Types -/

/-- A known type has a spelling, which is found at any depth beyond its identity. -/
theorem typeTextWithin_ok (acyclic : tables.Acyclic) (named : tables.VectorsNamed) {id : TypeId}
    (known : id.index < tables.types.size) :
    ∃ text, ∀ depth, id.index < depth → tables.typeTextWithin depth id = .ok text := by
  -- By induction on the identity, since the parts of a type come before it.
  obtain ⟨index⟩ := id
  induction index using Nat.strongRecOn with
  | _ index inductionHypothesis =>
    have there := Array.getElem?_eq_getElem known
    have found : tables.typeAt ⟨index⟩ = .ok tables.types[index] := typeAt_eq_ok_iff.mpr there
    -- The spelling of a part, one level further down.
    have inside {part : TypeId} (own : part ∈ tables.types[index].parts) :
        ∃ text, ∀ depth, index < depth + 1 → tables.typeTextWithin depth part = .ok text := by
      have earlier : part.index < index := acyclic there part own
      obtain ⟨text, spelled⟩ := inductionHypothesis part.index earlier (Nat.lt_trans earlier known)
      exact ⟨text, fun depth deep =>
        spelled depth (Nat.lt_of_lt_of_le earlier (Nat.le_of_lt_succ deep))⟩
    -- A spelling of the one level is one at every depth but none.
    suffices ∃ text, ∀ depth, index < depth + 1 →
        tables.typeTextWithin (depth + 1) ⟨index⟩ = .ok text by
      obtain ⟨text, spelled⟩ := this
      refine ⟨text, fun depth deep => ?_⟩
      obtain ⟨less, rfl⟩ := Nat.exists_eq_succ_of_ne_zero (Nat.ne_of_gt (Nat.zero_lt_of_lt deep))
      exact spelled less deep
    simp only [typeTextWithin, found, Outcome.ok_bind]
    generalize tables.types[index] = type at there inside
    cases type with
    | scalar | matrix | image | texture | sampler | struct | eliminated =>
      exact ⟨_, fun _ _ => rfl⟩
    | vector component size =>
      obtain ⟨kind, front, component, spelled⟩ := named there
      simp only [typeAt_eq_ok_iff.mpr component, Outcome.ok_bind, spelled]
      exact ⟨_, fun _ _ => rfl⟩
    | array element size =>
      obtain ⟨text, spelled⟩ := inside (List.mem_singleton_self element)
      exact ⟨_, fun depth deep => by simp only [spelled depth deep, Outcome.ok_bind]; rfl⟩
    | pointer pointee =>
      obtain ⟨text, spelled⟩ := inside (List.mem_singleton_self pointee)
      exact ⟨_, fun depth deep => by simp only [spelled depth deep, Outcome.ok_bind]; rfl⟩

/-- A table whose types can all be spelled. -/
def Spelled (tables : Tables) : Prop :=
  ∀ id : TypeId, id.index < tables.types.size → ∃ text, tables.typeText id = .ok text

/-- If types refer to earlier ones and vectors can be named, all types can be spelled. -/
theorem spelled_of_acyclic (acyclic : tables.Acyclic) (named : tables.VectorsNamed) :
    tables.Spelled := by
  intro id known
  obtain ⟨text, spelled⟩ := typeTextWithin_ok acyclic named known
  exact ⟨text, spelled _ (by omega)⟩

/-! ## Declarations -/

/-- The declaration of a name is written if its type can be spelled. -/
theorem declarationText_ok (spelled : tables.Spelled) (spelling : String) {type : TypeId}
    (known : type.index < tables.types.size) (precision : Precision)
    (decorations : List Decoration) (builtIn : Option BuiltIn) :
    ∃ text, tables.declarationText spelling type precision decorations builtIn = .ok text := by
  obtain ⟨text, typeOk⟩ := spelled _ known
  simp only [declarationText, typeOk, Outcome.ok_bind]
  exact ⟨_, rfl⟩

/-- So is the declaration of a variable. -/
theorem variableDeclarationText_ok (spelled : tables.Spelled) (closed : tables.Closed)
    {id : VariableId} (known : id.index < tables.vars.size) :
    ∃ text, tables.variableDeclarationText id = .ok text := by
  have there := Array.getElem?_eq_getElem known
  have typeKnown := closed.vars there
  obtain ⟨plain, plainOk⟩ := declarationText_ok spelled (tables.vars[id.index].name.spell id.index)
    typeKnown tables.vars[id.index].precision tables.vars[id.index].decorations
    tables.vars[id.index].builtIn
  obtain ⟨text, typeOk⟩ := spelled _ typeKnown
  simp only [variableDeclarationText, variableAt_eq_ok_iff.mpr there, plainOk, typeOk,
    Outcome.ok_bind]
  exact ⟨_, rfl⟩

/-- So is the signature of a function. -/
theorem signatureText_ok (spelled : tables.Spelled) (closed : tables.Closed)
    (functions : tables.FunctionsClosed) {id : FunctionId}
    (known : id.index < tables.functions.size) : ∃ text, tables.signatureText id = .ok text := by
  have there := Array.getElem?_eq_getElem known
  obtain ⟨returned, returnedOk⟩ := spelled _ (functions.returns there)
  have each : ∀ param ∈ tables.functions[id.index].params, ∃ text, (do
      return param.direction.text ++ (← tables.variableDeclarationText param.variableId)) =
        (.ok text : Result String) := by
    intro param member
    obtain ⟨text, declared⟩ := variableDeclarationText_ok spelled closed
      (functions.params there param member)
    simp only [declared, Outcome.ok_bind]
    exact ⟨_, rfl⟩
  obtain ⟨params, paramsOk⟩ := Outcome.exists_mapM_ok each
  simp only [signatureText, functionAt_eq_ok_iff.mpr there, returnedOk, paramsOk, Outcome.ok_bind]
  exact ⟨_, rfl⟩

end Tables

/-- In every session, vectors can be named after their components. -/
theorem Session.Reachable.vectorsNamed {stage : Stage} {shader : Shader}
    (reached : Reachable stage shader) : shader.program.tables.VectorsNamed :=
  reached.keepsTypes.vectorsNamed (Tables.vectorsNamed_empty stage)

end ShaderPipeline
