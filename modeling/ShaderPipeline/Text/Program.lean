import ShaderPipeline.Program
import ShaderPipeline.Typing
import ShaderPipeline.Text.Type

/-!
# Programs as text

A program is written line by line. The text depends on nothing but the program,
so two texts can be compared to tell whether a program has changed.
-/

namespace ShaderPipeline

def UnaryOp.text : UnaryOp → String
  | .negate => "-"
  | .logicalNot => "!"
  | .bitwiseNot => "~"

def BinaryOp.text : BinaryOp → String
  | .add => "+"
  | .sub => "-"
  | .mul => "*"
  | .div => "/"
  | .remainder => "%"
  | .equal => "=="
  | .notEqual => "!="
  | .less => "<"
  | .greater => ">"
  | .lessEqual => "<="
  | .greaterEqual => ">="
  | .logicalAnd => "&&"
  | .logicalOr => "||"

namespace Tables

mutual

/-- The text of an expression. Only binary operators are put in parentheses. -/
def exprText (tables : Tables) : Expr → Result String
  | .const value => .ok value.text
  | .var id => tables.variableText id
  | .field base position => do
    let field ← tables.fieldAt (← tables.typeOf base) position
    return (← tables.exprText base) ++ "." ++ field.name.spell position
  | .index base position => do
    let base ← tables.exprText base
    let position ← tables.exprText position
    return base ++ "[" ++ position ++ "]"
  | .unary op operand => do return op.text ++ (← tables.exprText operand)
  | .binary op left right => do
    let left ← tables.exprText left
    let right ← tables.exprText right
    return "(" ++ left ++ " " ++ op.text ++ " " ++ right ++ ")"
  | .construct type args => do
    let made ← tables.typeText type
    let args ← tables.exprTexts args
    return made ++ "(" ++ ", ".intercalate args ++ ")"
  | .call callee args => do
    let called ← tables.functionText callee
    let args ← tables.exprTexts args
    return called ++ "(" ++ ", ".intercalate args ++ ")"
  | .sample sampler coordinates => do
    let sampler ← tables.exprText sampler
    let coordinates ← tables.exprText coordinates
    return "texture(" ++ sampler ++ ", " ++ coordinates ++ ")"
  | .addressOf operand => do return "&" ++ (← tables.exprText operand)
termination_by structural expr => expr

/-- The texts of several expressions. -/
def exprTexts (tables : Tables) : List Expr → Result (List String)
  | [] => .ok []
  | arg :: args => do
    let arg ← tables.exprText arg
    let args ← tables.exprTexts args
    return arg :: args
termination_by structural args => args

end

/-- A line of text at a depth of nesting. -/
def line (depth : Nat) (text : String) : String :=
  String.join (List.replicate depth "    ") ++ text

/-- The line that opens a block. -/
def opening (depth : Nat) : String := line depth "\x7b"

/-- The line that closes a block. -/
def closing (depth : Nat) : String := line depth "\x7d"

mutual

/-- The lines of a statement. -/
def stmtLines (tables : Tables) (depth : Nat) : Stmt → Result (List String)
  | .declare id initial => do
    let declaration ← tables.variableDeclarationText id
    match initial with
    | some value => return [line depth (declaration ++ " = " ++ (← tables.exprText value) ++ ";")]
    | none => return [line depth (declaration ++ ";")]
  | .eval value => do return [line depth ((← tables.exprText value) ++ ";")]
  | .assign target value => do
    let target ← tables.exprText target
    let value ← tables.exprText value
    return [line depth (target ++ " = " ++ value ++ ";")]
  | .ifThen condition yes => do
    let condition ← tables.exprText condition
    let yes ← tables.stmtsLines (depth + 1) yes
    return line depth ("if (" ++ condition ++ ")") ::
      opening depth :: yes ++ [closing depth]
  | .ifElse condition yes no => do
    let condition ← tables.exprText condition
    let yes ← tables.stmtsLines (depth + 1) yes
    let no ← tables.stmtsLines (depth + 1) no
    return line depth ("if (" ++ condition ++ ")") ::
      opening depth :: yes ++ closing depth ::
      line depth "else" ::
      opening depth :: no ++ [closing depth]
  | .loop condition body => do
    let condition ← tables.exprText condition
    let body ← tables.stmtsLines (depth + 1) body
    return line depth ("while (" ++ condition ++ ")") ::
      opening depth :: body ++ [closing depth]
  | .block body => do
    let body ← tables.stmtsLines (depth + 1) body
    return opening depth :: body ++ [closing depth]
  | .ret none => .ok [line depth "return;"]
  | .ret (some value) => do return [line depth ("return " ++ (← tables.exprText value) ++ ";")]
  | .brk => .ok [line depth "break;"]
  | .cont => .ok [line depth "continue;"]
  | .discard => .ok [line depth "discard;"]
termination_by structural stmt => stmt

/-- The lines of several statements. -/
def stmtsLines (tables : Tables) (depth : Nat) : List Stmt → Result (List String)
  | [] => .ok []
  | stmt :: stmts => do
    let first ← tables.stmtLines depth stmt
    let rest ← tables.stmtsLines depth stmts
    return first ++ rest
termination_by structural stmts => stmts

end

/-- The lines of the fields of a struct, starting with the one at `position`. -/
def fieldLines (tables : Tables) : List Field → (position : Nat) → Result (List String)
  | [], _ => .ok []
  | field :: fields, position => do
    let first ← tables.fieldText field position
    let rest ← tables.fieldLines fields (position + 1)
    return line 1 (first ++ ";") :: rest

/-- The lines of a global declaration. -/
def globalLines (tables : Tables) : Global → Result (List String)
  | .struct type => do
    let spelling ← tables.typeText type
    let fields ← tables.fieldLines (← tables.fieldsOf type) 0
    return line 0 ("struct " ++ spelling) :: opening 0 :: fields ++ [line 0 "\x7d;"]
  | .var id => do return [line 0 ((← tables.variableDeclarationText id) ++ ";")]
  | .prototype function => do return [line 0 ((← tables.signatureText function) ++ ";")]
  | .definition function body => do
    let signature ← tables.signatureText function
    let body ← tables.stmtsLines 1 body
    return line 0 signature :: opening 0 :: body ++ [closing 0]

end Tables

/-- The text of a program: a remark that names the stage, then the declarations in order. -/
def Program.text (program : Program) : Result String := do
  let lines ← program.globals.mapM program.tables.globalLines
  return "\n".intercalate (("// " ++ program.tables.stage.text) :: lines.flatten)

end ShaderPipeline
