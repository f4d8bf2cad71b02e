import ShaderPipeline.Session.Request

/-!
# Sessions

A session starts with an empty shader and handles requests in order, each on the
shader that the one before it left. A reported error leaves the shader as it was
and the session goes on; a fault ends the session.
-/

namespace ShaderPipeline

namespace Shader

/-- The same shader with other tables. -/
def withTables (shader : Shader) (tables : Tables) : Shader :=
  { shader with program := { shader.program with tables } }

/-- The known variables that are invariant, in the order of the table. -/
def invariantVariables (shader : Shader) : List VariableId :=
  ((List.range shader.program.tables.vars.size).map VariableId.mk).filter
    shader.invariance.hasVariable

/-- The fields of known structs that are invariant, in the order of the table. -/
def invariantFields (shader : Shader) : List (TypeId × Nat) :=
  (shader.program.tables.types.toList.mapIdx fun index type =>
    ((List.range ((type.fields?.getD []).length)).map fun position =>
      ((⟨index⟩ : TypeId), position)).filter fun (struct, position) =>
        shader.invariance.hasField struct position).flatten

/-- The recorded names of known variables, in the order of the table. -/
def recordedNames (shader : Shader) : List (VariableId × String) :=
  ((List.range shader.program.tables.vars.size).map VariableId.mk).filterMap fun id =>
    (shader.reflection.name? id).map (id, ·)

end Shader

namespace Session

/-- An operation on the tables as one on the whole shader. -/
def onTables {α : Type} (shader : Shader) (answer : α → Answer)
    (outcome : Result (α × Tables)) : Result (Answer × Shader) := do
  let (value, tables) ← outcome
  return (answer value, shader.withTables tables)

/-- A request that only looks at the shader. -/
def asking (shader : Shader) (outcome : Result Answer) : Result (Answer × Shader) := do
  return (← outcome, shader)

/-- A function for the table, as it is asked for. -/
def newFunction (text : String) (source : Option NameSource) (params : List Param)
    (returnType : TypeId) (returnPrecision : Precision) : Function :=
  let plain := Function.named text params returnType returnPrecision
  match source with
  | some source => { plain with name := { plain.name with source } }
  | none => plain

/-- Creates a bridge and declares it at a place if one is given. -/
def createBridge (shader : Shader) (type : TypeId) (name : Name) (rules : LayoutRules)
    (place : Option Nat) : Result (Answer × Shader) := do
  let (bridge, tables, invariance) ←
    shader.program.tables.createBridge shader.invariance rules type name
  let program := { shader.program with tables }
  let program ← match bridge, place with
    | some bridge, some place => program.insertAt place bridge.globals
    | _, _ => pure program
  return (.bridge bridge, { shader with program, invariance })

/-- Runs a script. If it fails, no declarations are left. -/
def rebuild (shader : Shader) (script : Script) : Answer × Shader :=
  let (asked, outcome) := script.run shader.program.globals
  match outcome with
  | .ok globals => (.rebuilt asked none, { shader with program := { shader.program with globals } })
  | .error error =>
    (.rebuilt asked (some error), { shader with program := { shader.program with globals := [] } })

/-- Handles a request without keeping a journal. -/
def perform (shader : Shader) (request : Request) : Result (Answer × Shader) :=
  let program := shader.program
  let tables := program.tables
  match request with
  | .imageType kind => onTables shader .type (.ok (tables.intern (.image kind)))
  | .textureType kind => onTables shader .type (.ok (tables.intern (.texture kind)))
  | .textureEnv kind => onTables shader .type (.ok (tables.textureEnv kind))
  | .vectorType component size =>
    asking shader (do return .type (← Tables.vectorType component size))
  | .arrayType element size => onTables shader .type (.ok (tables.intern (.array element size)))
  | .pointerType pointee => onTables shader .type (.ok (tables.intern (.pointer pointee)))
  | .findPointer pointee => asking shader (.ok (.optionalType (tables.find? (.pointer pointee))))
  | .addStruct name fields => onTables shader .type (.ok (tables.addStruct name fields))
  | .createStruct name fields => onTables shader .type (tables.createStruct name fields)
  | .describeType type => asking shader (do return .typeEntry (← tables.typeAt type))
  | .structName type => asking shader (do return .name (← tables.structName type))
  | .declare entry => onTables shader .variableId (tables.declare entry)
  | .createInstance type name scope =>
    onTables shader .variableId (tables.createInstance type name scope)
  | .createParam name type precision =>
    onTables shader (.variableId ·.variableId) (tables.createParam name type precision)
  | .markReference id space => do
    return (.nothing, shader.withTables (← tables.markReference id space))
  | .eliminate id => do return (.nothing, shader.withTables (← tables.eliminate id))
  | .addFunction text source params returnType returnPrecision =>
    onTables shader .functionId
      (.ok (tables.addFunction (newFunction text source params returnType returnPrecision)))
  | .prependParam function param =>
    onTables shader .functionId (tables.cloneFunction function (·.prepend param))
  | .appendParams function params =>
    onTables shader .functionId (tables.cloneFunction function (·.append params))
  | .changeReturn function type =>
    onTables shader .functionId (tables.cloneFunction function (·.returning type))
  | .addGlobal global =>
    let globals := program.globals ++ [global]
    .ok (.count globals.length, { shader with program := { program with globals } })
  | .insertGlobals place globals => do
    let program ← program.insertAt place globals
    return (.count program.globals.length, { shader with program })
  | .findMain => asking shader (do return .main (← program.main?))
  | .body function => asking shader (.ok (.body (program.body? function)))
  | .types first => asking shader (.ok (.types (tables.types.toList.drop first)))
  | .vars => asking shader (.ok (.vars tables.vars.toList))
  | .functions => asking shader (.ok (.functions tables.functions.toList))
  | .globals => asking shader (.ok (.globals program.globals))
  | .text => asking shader (do return .text (← program.text))
  | .typeOf expr => asking shader (do return .type (← tables.typeOf expr))
  | .hasEffect expr => asking shader (.ok (.flag expr.hasEffect))
  | .findField type text => asking shader (do return .count (← tables.findField type text))
  | .selectField expr text => asking shader (do return .expr (← tables.selectField expr text))
  | .markInvariant id =>
    .ok (.nothing, { shader with invariance := shader.invariance.insertVariable id })
  | .markFieldInvariant type position =>
    .ok (.nothing, { shader with invariance := shader.invariance.insertField type position })
  | .invariance =>
    asking shader
      (.ok (.invariance shader.invariantVariables shader.invariantFields shader.invariance.isEmpty))
  | .recordName id name =>
    .ok (.nothing, { shader with reflection := shader.reflection.record id name })
  | .reflection =>
    asking shader (.ok (.reflection shader.recordedNames shader.reflection.count))
  | .outline => asking shader (.ok (.outline program.outline))
  | .mapStatements drop duplicate =>
    let (seen, program) := program.mapStatements drop duplicate
    .ok (.statements seen, { shader with program })
  | .rebuild script => .ok (rebuild shader script)
  | .check _ => asking shader (do program.check; return .valid)
  | .prune => do return (.nothing, { shader with program := ← program.prune })
  | .dependents ids =>
    let sorted := (program.dependents ids.contains).mergeSort
      fun left right => left.index ≤ right.index
    asking shader (.ok (.functionIds sorted))
  | .createBridge type name rules place => createBridge shader type name rules place
  | .describeCategory category => asking shader (.ok (.category category))
  | .classify id supplied =>
    asking shader do
      let claiming ← Category.all.filterM fun category => category.claims tables supplied id
      return .categories claiming
  | .describePair pair => asking shader (.ok (.pair pair))
  | .lower supplied _ => do
    let (structs, shader) ← shader.lower supplied
    return (.structs structs, shader)

/-- Handles a request, keeping a journal if it asks for one. -/
def handle (shader : Shader) (request : Request) :
    Option (List JournalEntry) × Result (Answer × Shader) :=
  match request with
  | .check true =>
    let (entries, outcome) := shader.program.checkJournaled
    (some entries, asking shader (do outcome; return .valid))
  | .lower supplied true =>
    let (entries, outcome) := shader.lowerJournaled supplied
    (some entries, do
      let (structs, shader) ← outcome
      return (.structs structs, shader))
  | other => (none, perform shader other)

/-- Handles requests in order, until one ends in a fault. -/
def respond : Shader → List Request → List Response
  | _, [] => []
  | shader, request :: rest =>
    let (journal, outcome) := handle shader request
    match outcome with
    | .ok (answer, shader) => ⟨.ok answer, journal⟩ :: respond shader rest
    | .error (.reported error) => ⟨.error (.reported error), journal⟩ :: respond shader rest
    | .error (.fatal cause) => [⟨.error (.fatal cause), journal⟩]

/-- The responses of a session on a new shader. -/
def run (stage : Stage) (requests : List Request) : List Response :=
  respond (.empty stage) requests

end Session

end ShaderPipeline
