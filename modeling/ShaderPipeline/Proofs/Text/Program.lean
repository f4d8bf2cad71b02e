import ShaderPipeline.Proofs.LoweringSafety
import ShaderPipeline.Proofs.Text.Types
import ShaderPipeline.Text.Program

/-!
# Valid programs are typed and written

The check looks at what it has to and no further: it never asks for the type of a
constructed value, of a call or of an operand. What it leaves open, that the
identities of the tables are known and that types are made of earlier ones, is all
that typing and writing need besides. So every part of every body of a valid
program has a type, and the program has a text.
-/

namespace ShaderPipeline

namespace Tables

variable {tables : Tables}

/-! ## Expressions and statements -/

/-- Several expressions are written if each of them is. -/
theorem exprTexts_ok {args : List Expr}
    (each : ∀ arg ∈ args, ∃ text, tables.exprText arg = .ok text) :
    ∃ texts, tables.exprTexts args = .ok texts := by
  induction args with
  | nil => exact ⟨[], rfl⟩
  | cons arg args inductionHypothesis =>
    rw [List.forall_mem_cons] at each
    obtain ⟨text, argOk⟩ := each.1
    obtain ⟨texts, argsOk⟩ := inductionHypothesis each.2
    exact ⟨text :: texts, by simp [exprTexts, argOk, argsOk]⟩

/-- A valid expression that constructs known types has a text. -/
theorem exprText_ok {context : Validity.Context} {visible : List VariableId} {expr : Expr}
    (spelled : context.tables.Spelled) (constructs : expr.Every context.tables.Constructs)
    (checked : Validity.checkExpr context visible expr = .ok ()) :
    ∃ text, context.tables.exprText expr = .ok text := by
  induction expr with
  | const value => exact ⟨_, rfl⟩
  | var id =>
    obtain ⟨-, entry, known, -⟩ := Validity.checkExpr_var_iff.mp checked
    simp only [exprText, variableText, variableAt_eq_ok_iff.mpr known, Outcome.ok_bind]
    exact ⟨_, rfl⟩
  | field base position inBase =>
    obtain ⟨baseOk, type, name, fields, typed, known, inside⟩ :=
      Validity.checkExpr_field_iff.mp checked
    obtain ⟨text, baseText⟩ := inBase (Expr.every_field.mp constructs).2 baseOk
    have fieldOk : context.tables.fieldAt type position = .ok fields[position] := by
      simp [fieldAt, fieldsOf_eq_ok_iff.mpr ⟨name, known⟩, inside]
    simp only [exprText, typed, fieldOk, baseText, Outcome.ok_bind]
    exact ⟨_, rfl⟩
  | index base position inBase inPosition =>
    obtain ⟨-, baseConstructs, positionConstructs⟩ := Expr.every_index.mp constructs
    obtain ⟨baseOk, positionOk, -⟩ := Validity.checkExpr_index_iff.mp checked
    obtain ⟨baseText, baseWritten⟩ := inBase baseConstructs baseOk
    obtain ⟨positionText, positionWritten⟩ := inPosition positionConstructs positionOk
    simp only [exprText, baseWritten, positionWritten, Outcome.ok_bind]
    exact ⟨_, rfl⟩
  | unary op operand inOperand =>
    obtain ⟨text, written⟩ := inOperand (Expr.every_unary.mp constructs).2
      (Validity.checkExpr_unary.symm.trans checked)
    simp only [exprText, written, Outcome.ok_bind]
    exact ⟨_, rfl⟩
  | binary op left right inLeft inRight =>
    obtain ⟨-, leftConstructs, rightConstructs⟩ := Expr.every_binary.mp constructs
    obtain ⟨leftOk, rightOk⟩ := Validity.checkExpr_binary_iff.mp checked
    obtain ⟨leftText, leftWritten⟩ := inLeft leftConstructs leftOk
    obtain ⟨rightText, rightWritten⟩ := inRight rightConstructs rightOk
    simp only [exprText, leftWritten, rightWritten, Outcome.ok_bind]
    exact ⟨_, rfl⟩
  | construct type args inArgs =>
    obtain ⟨known, argsConstruct⟩ := Expr.every_construct.mp constructs
    have argsOk := Validity.checkExpr_construct_iff.mp checked
    obtain ⟨made, madeOk⟩ := spelled _ known
    obtain ⟨texts, written⟩ := exprTexts_ok fun arg member =>
      inArgs arg member (argsConstruct arg member) (argsOk arg member)
    simp only [exprText, madeOk, written, Outcome.ok_bind]
    exact ⟨_, rfl⟩
  | call callee args inArgs =>
    have argsConstruct := (Expr.every_call.mp constructs).2
    obtain ⟨argsOk, -, function, known, -⟩ := Validity.checkExpr_call_iff.mp checked
    obtain ⟨texts, written⟩ := exprTexts_ok fun arg member =>
      inArgs arg member (argsConstruct arg member) (argsOk arg member)
    simp only [exprText, functionText, functionAt_eq_ok_iff.mpr known, written, Outcome.ok_bind]
    exact ⟨_, rfl⟩
  | sample sampler coordinates inSampler inCoordinates =>
    obtain ⟨-, samplerConstructs, coordinatesConstruct⟩ := Expr.every_sample.mp constructs
    obtain ⟨samplerOk, coordinatesOk⟩ := Validity.checkExpr_sample_iff.mp checked
    obtain ⟨samplerText, samplerWritten⟩ := inSampler samplerConstructs samplerOk
    obtain ⟨coordinatesText, coordinatesWritten⟩ :=
      inCoordinates coordinatesConstruct coordinatesOk
    simp only [exprText, samplerWritten, coordinatesWritten, Outcome.ok_bind]
    exact ⟨_, rfl⟩
  | addressOf operand inOperand =>
    obtain ⟨text, written⟩ := inOperand (Expr.every_addressOf.mp constructs).2
      (Validity.checkExpr_addressOf.symm.trans checked)
    simp only [exprText, written, Outcome.ok_bind]
    exact ⟨_, rfl⟩

/-- A statement can be written wherever it stands, if its expressions can be and the variables that
it declares have a declaration. -/
def Writable (tables : Tables) (stmt : Stmt) : Prop :=
  (∀ root ∈ stmt.roots, ∃ text, tables.exprText root = .ok text) ∧
    ∀ node ∈ stmt.nodes, ∀ id, Prune.declared? node = some id →
      ∃ text, tables.variableDeclarationText id = .ok text

/-- Several statements are written if each of them is. -/
theorem stmtsLines_ok {stmts : List Stmt}
    (each : ∀ stmt ∈ stmts, ∀ depth, ∃ lines, tables.stmtLines depth stmt = .ok lines)
    (depth : Nat) : ∃ lines, tables.stmtsLines depth stmts = .ok lines := by
  induction stmts with
  | nil => exact ⟨[], rfl⟩
  | cons stmt stmts inductionHypothesis =>
    rw [List.forall_mem_cons] at each
    obtain ⟨first, firstOk⟩ := each.1 depth
    obtain ⟨rest, restOk⟩ := inductionHypothesis each.2
    exact ⟨first ++ rest, by simp [stmtsLines, firstOk, restOk]⟩

/-- A writable statement is written at every depth. -/
theorem stmtLines_ok {stmt : Stmt} (writable : tables.Writable stmt) (depth : Nat) :
    ∃ lines, tables.stmtLines depth stmt = .ok lines := by
  -- A nested block can be written, since its statements are part of the statement around it.
  have nested {stmts : Block} (depth : Nat)
      (each : ∀ stmt ∈ stmts, tables.Writable stmt → ∀ depth,
        ∃ lines, tables.stmtLines depth stmt = .ok lines)
      (roots : ∀ root ∈ stmts.roots, ∃ text, tables.exprText root = .ok text)
      (declares : ∀ node ∈ Stmt.nodesOfAll stmts, ∀ id, Prune.declared? node = some id →
        ∃ text, tables.variableDeclarationText id = .ok text) :
      ∃ lines, tables.stmtsLines depth stmts = .ok lines := by
    refine stmtsLines_ok (fun stmt member => each stmt member ⟨?_, ?_⟩) depth
    · exact fun root own => roots root (Block.mem_roots.mpr ⟨stmt, member, own⟩)
    · exact fun node inside => declares node (Stmt.mem_nodesOfAll.mpr ⟨stmt, member, inside⟩)
  obtain ⟨roots, declares⟩ := writable
  induction stmt generalizing depth with
  | declare id initial =>
    obtain ⟨declaration, declared⟩ := declares _ (Stmt.self_mem_nodes _) id rfl
    cases initial with
    | none =>
      simp only [stmtLines, declared, Outcome.ok_bind]
      exact ⟨_, rfl⟩
    | some value =>
      obtain ⟨text, written⟩ := roots value (by simp)
      simp only [stmtLines, declared, written, Outcome.ok_bind]
      exact ⟨_, rfl⟩
  | eval value =>
    obtain ⟨text, written⟩ := roots value (by simp)
    simp only [stmtLines, written, Outcome.ok_bind]
    exact ⟨_, rfl⟩
  | assign target value =>
    obtain ⟨targetText, targetWritten⟩ := roots target (by simp)
    obtain ⟨valueText, valueWritten⟩ := roots value (by simp)
    simp only [stmtLines, targetWritten, valueWritten, Outcome.ok_bind]
    exact ⟨_, rfl⟩
  | ifThen condition yes inYes =>
    rw [Stmt.roots_ifThen, List.forall_mem_cons] at roots
    rw [Stmt.nodes, List.forall_mem_cons] at declares
    obtain ⟨text, written⟩ := roots.1
    obtain ⟨lines, yesOk⟩ := nested (depth + 1)
      (fun stmt member writable depth => inYes stmt member depth writable.1 writable.2)
      roots.2 declares.2
    simp only [stmtLines, written, yesOk, Outcome.ok_bind]
    exact ⟨_, rfl⟩
  | ifElse condition yes no inYes inNo =>
    rw [Stmt.roots_ifElse, List.forall_mem_cons, List.forall_mem_append] at roots
    rw [Stmt.nodes, List.forall_mem_cons, List.forall_mem_append] at declares
    obtain ⟨text, written⟩ := roots.1
    obtain ⟨lines, yesOk⟩ := nested (depth + 1)
      (fun stmt member writable depth => inYes stmt member depth writable.1 writable.2)
      roots.2.1 declares.2.1
    obtain ⟨otherLines, noOk⟩ := nested (depth + 1)
      (fun stmt member writable depth => inNo stmt member depth writable.1 writable.2)
      roots.2.2 declares.2.2
    simp only [stmtLines, written, yesOk, noOk, Outcome.ok_bind]
    exact ⟨_, rfl⟩
  | loop condition body inBody =>
    rw [Stmt.roots_loop, List.forall_mem_cons] at roots
    rw [Stmt.nodes, List.forall_mem_cons] at declares
    obtain ⟨text, written⟩ := roots.1
    obtain ⟨lines, bodyOk⟩ := nested (depth + 1)
      (fun stmt member writable depth => inBody stmt member depth writable.1 writable.2)
      roots.2 declares.2
    simp only [stmtLines, written, bodyOk, Outcome.ok_bind]
    exact ⟨_, rfl⟩
  | block body inBody =>
    rw [Stmt.roots_block] at roots
    rw [Stmt.nodes, List.forall_mem_cons] at declares
    obtain ⟨lines, bodyOk⟩ := nested (depth + 1)
      (fun stmt member writable depth => inBody stmt member depth writable.1 writable.2)
      roots declares.2
    simp only [stmtLines, bodyOk, Outcome.ok_bind]
    exact ⟨_, rfl⟩
  | ret value =>
    cases value with
    | none => exact ⟨_, rfl⟩
    | some value =>
      obtain ⟨text, written⟩ := roots value (by simp)
      simp only [stmtLines, written, Outcome.ok_bind]
      exact ⟨_, rfl⟩
  | brk | cont | discard => exact ⟨_, rfl⟩

/-- The fields of a struct are written if their types are known. -/
theorem fieldLines_ok (spelled : tables.Spelled) {fields : List Field}
    (known : ∀ field ∈ fields, field.type.index < tables.types.size) (position : Nat) :
    ∃ lines, tables.fieldLines fields position = .ok lines := by
  induction fields generalizing position with
  | nil => exact ⟨[], rfl⟩
  | cons field fields inductionHypothesis =>
    rw [List.forall_mem_cons] at known
    obtain ⟨first, firstOk⟩ := declarationText_ok spelled (field.name.spell position) known.1
      field.precision field.decorations field.builtIn
    obtain ⟨rest, restOk⟩ := inductionHypothesis known.2 (position + 1)
    simp only [fieldLines, fieldText, firstOk, restOk, Outcome.ok_bind]
    exact ⟨_, rfl⟩

end Tables

/-! ## Programs -/

/-- Everything that a program refers to is there: its types are made of earlier ones, the types of
its variables and functions, the parameters of functions and the types of constructed values are
known, its prototypes are those of functions, and the structs that it declares are structs. -/
structure Program.Resolved (program : Program) : Prop where
  acyclic : program.tables.Acyclic
  variableTypes : ∀ entry ∈ program.tables.vars, entry.type.index < program.tables.types.size
  functions : ∀ function ∈ program.tables.functions,
    (∀ param ∈ function.params, param.variableId.index < program.tables.vars.size) ∧
      function.returnType.index < program.tables.types.size
  constructs : ∀ definition ∈ program.definitions,
    Block.Every program.tables.Constructs definition.2
  prototypes : ∀ function, .prototype function ∈ program.globals →
    function.index < program.tables.functions.size
  structs : ∀ type, .struct type ∈ program.globals →
    ∃ name fields, program.tables.types[type.index]? = some (.struct name fields)

instance (tables : Tables) (expr : Expr) : Decidable (tables.Constructs expr) :=
  match expr with
  | .construct type _ => inferInstanceAs (Decidable (type.index < tables.types.size))
  | .const _ | .var _ | .field _ _ | .index _ _ | .unary _ _ | .binary _ _ _ | .call _ _
  | .sample _ _ | .addressOf _ => .isTrue trivial

namespace Program.Resolved

variable {program : Program}

/-- The types of a resolved program refer to known ones only. -/
theorem closed (resolved : program.Resolved) : program.tables.Closed :=
  Tables.closed_of_acyclic resolved.acyclic resolved.variableTypes

/-- So do its functions. -/
theorem functionsClosed (resolved : program.Resolved) : program.tables.FunctionsClosed :=
  Tables.functionsClosed_of_forall resolved.functions

/-- Every part of every body of a valid program has a known type. -/
theorem typed (resolved : program.Resolved) (sound : program.tables.Sound)
    (valid : program.check = .ok ()) {definition : FunctionId × Block}
    (defined : definition ∈ program.definitions) :
    Block.Every program.tables.Typed definition.2 := by
  intro root own node inside
  obtain ⟨visible, -, checked⟩ := (Validity.checkDefinition_checked
    (check_definition valid defined)).1 root own node inside
  exact Validity.checkExpr_typed sound resolved.closed resolved.functionsClosed.returns
    ((resolved.constructs definition defined root own).part inside) checked

/-- The statements of a valid program can be written. -/
theorem writable (resolved : program.Resolved) (spelled : program.tables.Spelled)
    (valid : program.check = .ok ()) {definition : FunctionId × Block}
    (defined : definition ∈ program.definitions) :
    ∀ stmt ∈ definition.2, program.tables.Writable stmt := by
  obtain ⟨checked, declares⟩ := Validity.checkDefinition_checked (check_definition valid defined)
  intro stmt member
  constructor
  · intro root own
    have inBody : root ∈ Block.roots definition.2 := Block.mem_roots.mpr ⟨stmt, member, own⟩
    obtain ⟨visible, -, rootOk⟩ := checked root inBody root (Expr.self_mem_nodes root)
    exact Tables.exprText_ok spelled (resolved.constructs definition defined root inBody) rootOk
  · intro node inside id declared
    obtain ⟨entry, declarable⟩ := declares node
      (Stmt.mem_nodesOfAll.mpr ⟨stmt, member, inside⟩) id declared
    exact Tables.variableDeclarationText_ok spelled resolved.closed
      (Array.getElem?_eq_some_iff.mp declarable.known).1

/-- Every declaration of a valid program can be written. -/
theorem globalLines_ok (resolved : program.Resolved) (spelled : program.tables.Spelled)
    (valid : program.check = .ok ()) {global : Global} (member : global ∈ program.globals) :
    ∃ lines, program.tables.globalLines global = .ok lines := by
  cases global with
  | struct type =>
    obtain ⟨name, fields, known⟩ := resolved.structs type member
    obtain ⟨spelling, typeOk⟩ := spelled _ (Tables.index_lt_of_getElem? known)
    obtain ⟨lines, fieldsOk⟩ := Tables.fieldLines_ok spelled
      (fun field own => resolved.closed.parts known field.type (List.mem_map_of_mem own)) 0
    simp only [Tables.globalLines, typeOk, Tables.fieldsOf_eq_ok_iff.mpr ⟨name, known⟩, fieldsOk,
      Outcome.ok_bind]
    exact ⟨_, rfl⟩
  | var id =>
    obtain ⟨entry, declarable⟩ := global_declarable valid member
    obtain ⟨text, declared⟩ := Tables.variableDeclarationText_ok spelled resolved.closed
      (Array.getElem?_eq_some_iff.mp declarable.known).1
    simp only [Tables.globalLines, declared, Outcome.ok_bind]
    exact ⟨_, rfl⟩
  | prototype function =>
    obtain ⟨text, signed⟩ := Tables.signatureText_ok spelled resolved.closed
      resolved.functionsClosed (resolved.prototypes function member)
    simp only [Tables.globalLines, signed, Outcome.ok_bind]
    exact ⟨_, rfl⟩
  | definition function body =>
    have defined : (function, body) ∈ program.definitions :=
      List.mem_filterMap.mpr ⟨_, member, rfl⟩
    obtain ⟨entry, known, -⟩ := Validity.checkDefinition_eq_ok_iff.mp
      (check_definition valid defined)
    obtain ⟨text, signed⟩ := Tables.signatureText_ok spelled resolved.closed
      resolved.functionsClosed (Array.getElem?_eq_some_iff.mp known).1
    obtain ⟨lines, bodyOk⟩ := Tables.stmtsLines_ok (fun stmt own depth =>
      Tables.stmtLines_ok (resolved.writable spelled valid defined stmt own) depth) 1
    simp only [Tables.globalLines, signed, bodyOk, Outcome.ok_bind]
    exact ⟨_, rfl⟩

end Program.Resolved

/-- In a shader that a session can lead to and that is valid, in which everything that is referred
to is there, typing and writing never fail: every part of every body has a known type, and the
program has a text. -/
theorem Session.typed_and_written {stage : Stage} {shader : Shader}
    (reached : Reachable stage shader) (valid : shader.program.check = .ok ())
    (resolved : shader.program.Resolved) :
    (∀ definition ∈ shader.program.definitions, ∀ expr ∈ Block.exprs definition.2,
      ∃ type, shader.program.tables.typeOf expr = .ok type ∧
        type.index < shader.program.tables.types.size) ∧
    ∃ text, shader.program.text = .ok text := by
  constructor
  · intro definition defined expr inside
    simp only [Block.exprs, List.mem_flatMap] at inside
    obtain ⟨stmt, member, root, own, found⟩ := inside
    obtain ⟨type, entry, typed, known⟩ := resolved.typed reached.sound valid defined root
      (List.mem_flatMap.mpr ⟨stmt, member, own⟩) expr found
    exact ⟨type, typed, Tables.index_lt_of_getElem? known⟩
  · have spelled := Tables.spelled_of_acyclic resolved.acyclic reached.vectorsNamed
    obtain ⟨lines, written⟩ := Outcome.exists_mapM_ok fun global member =>
      resolved.globalLines_ok spelled valid member
    simp only [Program.text, written, Outcome.ok_bind]
    exact ⟨_, rfl⟩

/-- A request for a struct is answered with the new identity, and nothing is recorded. -/
theorem Session.handle_addStruct (shader : Shader) (name : Name) (fields : List Field) :
    handle shader (.addStruct name fields) =
      (none, .ok (.type (shader.program.tables.addStruct name fields).1,
        shader.withTables (shader.program.tables.addStruct name fields).2)) := rfl

/-- A struct with a color and two weights. -/
def materialFields : List Field :=
  [⟨.exact "tint", .vec4, .notApplicable, [], none⟩, ⟨.exact "weights", ⟨21⟩, .high, [], none⟩]

/-- A fragment shader with a function that scales the color of a material by one of its weights. -/
def tinting : Shader where
  program :=
    { tables :=
        { stage := .fragment
          types := (predefinedTypes ++
            [Ty.array .float 2, Ty.struct (.exact "Material") materialFields]).toArray
          vars := #[{ name := .temporary "material", type := ⟨22⟩, scope := .global },
            { name := .temporary "which", type := .int, scope := .parameter },
            { name := .temporary "color", type := .vec4, scope := .local }]
          functions := #[.named "tinted" [⟨⟨1⟩, .input⟩] .vec4 .notApplicable,
            .named "main" [] .void .notApplicable] }
      globals :=
        [.struct ⟨22⟩, .var ⟨0⟩, .prototype ⟨0⟩,
          .definition ⟨1⟩
            [.declare ⟨2⟩ (some (.call ⟨0⟩ [.int 1])),
              .ifElse (.binary .less (.index (.var ⟨2⟩) (.int 3)) (.index (.var ⟨2⟩) (.int 0)))
                [.discard] [.assign (.field (.var ⟨0⟩) 0) (.var ⟨2⟩)]],
          .definition ⟨0⟩
            [.ret (some (.binary .mul (.field (.var ⟨0⟩) 0)
              (.construct .vec4 [.unary .negate (.index (.field (.var ⟨0⟩) 1) (.var ⟨1⟩))])))]] }

/-- A session leads to the shader that tints. -/
theorem tinting_reachable : Session.Reachable .fragment tinting := by
  have made : Session.Leads (.empty .fragment) ((Shader.empty .fragment).withTables
      ((Tables.intern { stage := .fragment } (.array .float 2)).2.addStruct (.exact "Material")
        materialFields).2) :=
    (Relation.ReflTransGen.single (.handled (Session.handle_request _ (.array .float 2)))).tail
      (.handled (Session.handle_addStruct _ (.exact "Material") materialFields))
  exact made.tail (.edited rfl rfl)

/-- Everything that it refers to is there. -/
theorem tinting_resolved : tinting.program.Resolved where
  acyclic := by decide
  variableTypes := by decide
  functions := by decide
  constructs := by decide
  prototypes function declared := by
    obtain rfl : function = ⟨0⟩ := by simpa [tinting] using declared
    decide
  structs type declared := by
    obtain rfl : type = ⟨22⟩ := by simpa [tinting] using declared
    exact ⟨_, _, rfl⟩

/-- The parts of its bodies are typed and it is written. -/
theorem Session.typed_and_written_tinting :
    Reachable .fragment tinting ∧ tinting.program.check = .ok () ∧ tinting.program.Resolved ∧
      (∀ definition ∈ tinting.program.definitions, ∀ expr ∈ Block.exprs definition.2,
        ∃ type, tinting.program.tables.typeOf expr = .ok type ∧
          type.index < tinting.program.tables.types.size) ∧
      ∃ text, tinting.program.text = .ok text := by
  have valid : tinting.program.check = .ok () := Outcome.eq_ok_of_isOk (by decide)
  exact ⟨tinting_reachable, valid, tinting_resolved,
    Session.typed_and_written tinting_reachable valid tinting_resolved⟩

example : tinting.program.text.toOption = some ("\n".intercalate
    ["// Fragment Shader",
      "struct Material",
      "\x7b",
      "    vec4 tint;",
      "    highp float[2] weights;",
      "\x7d;",
      "Material material_0;",
      "vec4 tinted_0(int which_1);",
      "void main()",
      "\x7b",
      "    vec4 color_2 = tinted_0(1);",
      "    if ((color_2[3] < color_2[0]))",
      "    \x7b",
      "        discard;",
      "    \x7d",
      "    else",
      "    \x7b",
      "        material_0.tint = color_2;",
      "    \x7d",
      "\x7d",
      "vec4 tinted_0(int which_1)",
      "\x7b",
      "    return (material_0.tint * vec4(-material_0.weights[which_1]));",
      "\x7d"]) := by
  decide +kernel

end ShaderPipeline
