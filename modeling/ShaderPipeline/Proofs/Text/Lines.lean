import ShaderPipeline.Proofs.Statements
import ShaderPipeline.Proofs.Text.Declarations
import ShaderPipeline.Proofs.Text.Readings

/-!
# Statements from their lines

The first line of a statement tells the statement, up to what is nested in it. A
declaration begins with a qualifier, and what follows that is neither the end nor an
equality sign. Other simple statements begin with an expression or with a word of their
own that is no name. The lines of nested statements stand between braces, whose lines no
statement begins with, so a block is told by its lines whatever lines follow them.
-/

namespace ShaderPipeline

open Phrase

namespace Tables

variable {tables : Tables}

/-! ## The first line -/

/-- The first line of a statement, without its indentation. -/
def headText (tables : Tables) : Stmt → Result String
  | .declare id none => do return (← tables.variableDeclarationText id) ++ ";"
  | .declare id (some value) => do
    let declaration ← tables.variableDeclarationText id
    return declaration ++ " = " ++ (← tables.exprText value) ++ ";"
  | .eval value => do return (← tables.exprText value) ++ ";"
  | .assign target value => do
    let target ← tables.exprText target
    let value ← tables.exprText value
    return target ++ " = " ++ value ++ ";"
  | .ifThen condition _ => do return "if (" ++ (← tables.exprText condition) ++ ")"
  | .ifElse condition _ _ => do return "if (" ++ (← tables.exprText condition) ++ ")"
  | .loop condition _ => do return "while (" ++ (← tables.exprText condition) ++ ")"
  | .block _ => .ok "\x7b"
  | .ret none => .ok "return;"
  | .ret (some value) => do return "return " ++ (← tables.exprText value) ++ ";"
  | .brk => .ok "break;"
  | .cont => .ok "continue;"
  | .discard => .ok "discard;"

/-- The lines of a nested block after the opening one. -/
def nestedLines (tables : Tables) (depth : Nat) (body : Block) : Result (List String) := do
  return (← tables.stmtsLines (depth + 1) body) ++ [closing depth]

/-- The lines of a statement after the first. -/
def moreLines (tables : Tables) (depth : Nat) : Stmt → Result (List String)
  | .ifThen _ body | .loop _ body => do return opening depth :: (← tables.nestedLines depth body)
  | .ifElse _ yes no => do
    let yes ← tables.nestedLines depth yes
    let no ← tables.nestedLines depth no
    return opening depth :: yes ++ line depth "else" :: opening depth :: no
  | .block body => tables.nestedLines depth body
  | .declare _ _ | .eval _ | .assign _ _ | .ret _ | .brk | .cont | .discard => .ok []

/-- The lines of a statement are the first one and the others. -/
theorem stmtLines_eq (depth : Nat) (stmt : Stmt) : tables.stmtLines depth stmt = do
    let head ← tables.headText stmt
    let more ← tables.moreLines depth stmt
    return line depth head :: more := by
  cases stmt with
  | declare id initial => cases initial <;> simp [stmtLines, headText, moreLines]
  | ret value => cases value <;> simp [stmtLines, headText, moreLines]
  | eval | assign | brk | cont | discard => simp [stmtLines, headText, moreLines]
  | ifThen | loop | block => simp [stmtLines, headText, moreLines, nestedLines, opening]
  | ifElse condition yes no =>
    simp [stmtLines, headText, moreLines, nestedLines]

/-! ## Reading the first line -/

/-- A plain expression and the phrase that it reads as. -/
structure Tells (tables : Tables) (expr : Expr) (phrase : Phrase .whole) : Prop where
  reads : tables.ReadsAs expr phrase
  plain : expr.Every tables.Plain

/-- If an expression can be written, the text is that of a phrase that tells the expression. -/
def Readable (tables : Tables) (expr : Expr) : Prop :=
  ∀ text, tables.exprText expr = .ok text →
    ∃ phrase, tables.Tells expr phrase ∧ phrase.text = text.toList

/-- A phrase tells one expression. -/
theorem Tells.inj (legible : tables.Legible) {first second : Expr} {phrase : Phrase .whole}
    (tells : tables.Tells first phrase) (otherTells : tables.Tells second phrase) :
    first = second :=
  tells.reads.inj legible otherTells.reads rfl tells.plain otherTells.plain

/-- The words that stand where an expression may stand. -/
def jumpWords : List String := ["return", "break", "continue", "discard"]

/-- Each of these words can be read as a word of a phrase. -/
theorem isWord_of_jump {word : String} (known : word ∈ jumpWords) : IsWord word.toList := by
  simp only [jumpWords, List.mem_cons, List.not_mem_nil, or_false] at known
  rcases known with rfl | rfl | rfl | rfl <;> exact ⟨⟨_, _, rfl, rfl⟩, by decide⟩

/-- Each of them is a keyword, and none is the text of a constant. -/
theorem not_mem_keywords_of_jump : ∀ word ∈ jumpWords, word ∈ keywords ∧ word ∉ literalWords := by
  decide

/-- No expression reads as such a word. -/
theorem ReadsAs.ne_jump {expr : Expr} {phrase : Phrase .whole} (reads : tables.ReadsAs expr phrase)
    {word : String} (known : word ∈ jumpWords) :
    phrase ≠ .word (isWord_of_jump known).word .done := by
  intro same
  obtain ⟨keyword, noLiteral⟩ := not_mem_keywords_of_jump word known
  cases expr with
  | const value =>
    cases reads with
    | const literal =>
      subst same
      cases literal with
      | word special =>
        rw [IsWord.word, String.ofList_toList] at special
        exact noLiteral special
    | negative => cases same
  | var id =>
    cases reads with
    | var isName =>
      have sameText := congrArg Word.text (Phrase.word.inj same).1
      exact isName.ne_keyword keyword (String.toList_inj.mp sameText)
  | _ =>
    have form := reads.form_eq rfl
    subst same
    cases Option.some.inj form

/-- The word that a statement is made of. -/
def jump? : Stmt → Option String
  | .ret none => some "return"
  | .brk => some "break"
  | .cont => some "continue"
  | .discard => some "discard"
  | _ => none

/-- The word tells the statement. -/
theorem jump?_inj {first second : Stmt} {word : String} (known : jump? first = some word)
    (otherKnown : jump? second = some word) : first = second := by
  cases first <;> cases second <;> grind [jump?]

/-- A statement on one line that is no declaration: what it begins with, and the rest of it without
the semicolon. -/
inductive Simple (tables : Tables) : Stmt → Phrase .whole → List Char → Prop
  | eval {value : Expr} {phrase : Phrase .whole} (tells : tables.Tells value phrase) :
      Simple tables (.eval value) phrase []
  | assign {target value : Expr} {before after : Phrase .whole}
      (ofTarget : tables.Tells target before) (ofValue : tables.Tells value after) :
      Simple tables (.assign target value) before (' ' :: '=' :: ' ' :: after.text)
  | jump {stmt : Stmt} {word : String} (known : word ∈ jumpWords) (made : jump? stmt = some word) :
      Simple tables stmt (.word (isWord_of_jump known).word .done) []
  | handBack {value : Expr} {phrase : Phrase .whole} (known : "return" ∈ jumpWords)
      (tells : tables.Tells value phrase) :
      Simple tables (.ret (some value)) (.word (isWord_of_jump known).word .done)
        (' ' :: phrase.text)

/-- A simple statement is told by what it begins with and by the rest of its line. -/
theorem Simple.inj (legible : tables.Legible) {first second : Stmt} {phrase other : Phrase .whole}
    {rest others : List Char} (simple : tables.Simple first phrase rest)
    (otherSimple : tables.Simple second other others) (same : phrase = other)
    (sameRest : rest = others) : first = second := by
  cases simple with
  | eval tells =>
    cases otherSimple with
    | eval otherTells => rw [tells.inj legible (same ▸ otherTells)]
    | jump known => exact absurd same (tells.reads.ne_jump known)
    | assign | handBack => cases sameRest
  | assign ofTarget ofValue =>
    cases otherSimple with
    | assign ofOther ofOtherValue =>
      simp only [List.cons.injEq, true_and] at sameRest
      obtain rfl := text_injective sameRest
      rw [ofTarget.inj legible (same ▸ ofOther), ofValue.inj legible ofOtherValue]
    | handBack known => exact absurd same (ofTarget.reads.ne_jump known)
    | eval | jump => cases sameRest
  | jump known made =>
    cases otherSimple with
    | eval otherTells => exact absurd same.symm (otherTells.reads.ne_jump known)
    | jump otherKnown otherMade =>
      have sameText := congrArg Word.text (Phrase.word.inj same).1
      obtain rfl := String.toList_inj.mp sameText
      exact jump?_inj made otherMade
    | assign | handBack => cases sameRest
  | handBack known tells =>
    cases otherSimple with
    | assign ofOther => exact absurd same.symm (ofOther.reads.ne_jump known)
    | handBack _ otherTells =>
      obtain rfl := text_injective (List.cons.inj sameRest).2
      rw [tells.inj legible otherTells]
    | eval | jump => cases sameRest

/-- What follows the first phrase of a simple statement goes on with no phrase. -/
theorem Simple.ends {stmt : Stmt} {phrase : Phrase .whole} {rest : List Char}
    (simple : tables.Simple stmt phrase rest) (after : List Char) :
    Phrase.Ends (rest ++ ';' :: after) := by
  cases simple <;> exact .cons (by decide)

/-- What is assigned to a variable where it is declared. -/
inductive Assigned (tables : Tables) : Option Expr → List Char → Prop
  | none : Assigned tables none []
  | some {value : Expr} {phrase : Phrase .whole} (tells : tables.Tells value phrase) :
      Assigned tables (some value) (' ' :: '=' :: ' ' :: phrase.text)

/-- The text of an initial value tells the value, and whether there is one. -/
theorem Assigned.inj (legible : tables.Legible) {first second : Option Expr}
    {rest others : List Char} (assigned : tables.Assigned first rest)
    (otherAssigned : tables.Assigned second others) (same : rest = others) : first = second := by
  cases assigned with
  | none =>
    cases otherAssigned with
    | none => rfl
    | some => cases same
  | some tells =>
    cases otherAssigned with
    | none => cases same
    | some otherTells =>
      simp only [List.cons.injEq, true_and] at same
      obtain rfl := text_injective same
      rw [tells.inj legible otherTells]

/-- The initial value of a variable, if there is one, comes after an equality sign. -/
theorem Assigned.follows {initial : Option Expr} {rest : List Char}
    (assigned : tables.Assigned initial rest) :
    rest = [] ∨ ∃ value, rest = ' ' :: '=' :: ' ' :: value := by
  cases assigned with
  | none => exact .inl rfl
  | some => exact .inr ⟨_, rfl⟩

/-- What the first line of a statement reads as. -/
inductive Head (tables : Tables) : Stmt → List Char → Prop
  | declare {id : VariableId} {initial : Option Expr} {text : String} {rest : List Char}
      (written : tables.variableDeclarationText id = .ok text)
      (assigned : tables.Assigned initial rest) :
      Head tables (.declare id initial) (text.toList ++ (rest ++ [';']))
  | simple {stmt : Stmt} {phrase : Phrase .whole} {rest : List Char}
      (simple : tables.Simple stmt phrase rest) : Head tables stmt (phrase.text ++ (rest ++ [';']))
  | ifThen {condition : Expr} {yes : Block} {phrase : Phrase .whole}
      (tells : tables.Tells condition phrase) :
      Head tables (.ifThen condition yes) ("if (".toList ++ (phrase.text ++ [')']))
  | ifElse {condition : Expr} {yes no : Block} {phrase : Phrase .whole}
      (tells : tables.Tells condition phrase) :
      Head tables (.ifElse condition yes no) ("if (".toList ++ (phrase.text ++ [')']))
  | loop {condition : Expr} {body : Block} {phrase : Phrase .whole}
      (tells : tables.Tells condition phrase) :
      Head tables (.loop condition body) ("while (".toList ++ (phrase.text ++ [')']))
  | block {body : Block} : Head tables (.block body) ['\x7b']

/-- The line of a statement that is made of one of these words is the word with a semicolon. -/
theorem Head.of_jump {stmt : Stmt} {word : String} (known : word ∈ jumpWords)
    (made : jump? stmt = some word) : tables.Head stmt (word ++ ";").toList := by
  simpa [Phrase.text, IsWord.word] using Head.simple (.jump known made)

/-- A first line that can be written can be read. -/
theorem exists_head {stmt : Stmt} {text : String} (written : tables.headText stmt = .ok text)
    (readable : ∀ expr ∈ stmt.ownExprs, tables.Readable expr) : tables.Head stmt text.toList := by
  cases stmt with
  | declare id initial =>
    cases initial with
    | none =>
      obtain ⟨declaration, declared, same⟩ := Outcome.bind_eq_ok_iff.mp written
      obtain rfl := Except.ok.inj same
      simpa using Head.declare declared .none
    | some value =>
      simp only [headText, Outcome.bind_eq_ok_iff] at written
      obtain ⟨declaration, declared, valueText, valueWritten, same⟩ := written
      obtain rfl := Except.ok.inj same
      obtain ⟨phrase, tells, spelled⟩ := readable value (by simp [Stmt.ownExprs]) _ valueWritten
      simpa [spelled] using Head.declare declared (.some tells)
  | eval value =>
    obtain ⟨valueText, valueWritten, same⟩ := Outcome.bind_eq_ok_iff.mp written
    obtain rfl := Except.ok.inj same
    obtain ⟨phrase, tells, spelled⟩ := readable value (by simp [Stmt.ownExprs]) _ valueWritten
    simpa [spelled] using Head.simple (.eval tells)
  | assign target value =>
    simp only [headText, Outcome.bind_eq_ok_iff] at written
    obtain ⟨targetText, targetWritten, valueText, valueWritten, same⟩ := written
    obtain rfl := Except.ok.inj same
    obtain ⟨before, ofTarget, targetSpelled⟩ :=
      readable target (by simp [Stmt.ownExprs]) _ targetWritten
    obtain ⟨after, ofValue, valueSpelled⟩ := readable value (by simp [Stmt.ownExprs]) _ valueWritten
    simpa [targetSpelled, valueSpelled] using Head.simple (.assign ofTarget ofValue)
  | ifThen condition yes =>
    obtain ⟨conditionText, conditionWritten, same⟩ := Outcome.bind_eq_ok_iff.mp written
    obtain rfl := Except.ok.inj same
    obtain ⟨phrase, tells, spelled⟩ :=
      readable condition (by simp [Stmt.ownExprs]) _ conditionWritten
    simpa [spelled] using @Head.ifThen _ _ yes _ tells
  | ifElse condition yes no =>
    obtain ⟨conditionText, conditionWritten, same⟩ := Outcome.bind_eq_ok_iff.mp written
    obtain rfl := Except.ok.inj same
    obtain ⟨phrase, tells, spelled⟩ :=
      readable condition (by simp [Stmt.ownExprs]) _ conditionWritten
    simpa [spelled] using @Head.ifElse _ _ yes no _ tells
  | loop condition body =>
    obtain ⟨conditionText, conditionWritten, same⟩ := Outcome.bind_eq_ok_iff.mp written
    obtain rfl := Except.ok.inj same
    obtain ⟨phrase, tells, spelled⟩ :=
      readable condition (by simp [Stmt.ownExprs]) _ conditionWritten
    simpa [spelled] using @Head.loop _ _ body _ tells
  | block body =>
    obtain rfl := Except.ok.inj written
    exact .block
  | ret value =>
    cases value with
    | none =>
      obtain rfl := Except.ok.inj written
      exact @Head.of_jump _ _ "return" (by decide) rfl
    | some value =>
      obtain ⟨valueText, valueWritten, same⟩ := Outcome.bind_eq_ok_iff.mp written
      obtain rfl := Except.ok.inj same
      obtain ⟨phrase, tells, spelled⟩ := readable value (by simp [Stmt.ownExprs]) _ valueWritten
      simpa [spelled, Phrase.text, IsWord.word] using Head.simple (.handBack (by decide) tells)
  | brk =>
    obtain rfl := Except.ok.inj written
    exact @Head.of_jump _ _ "break" (by decide) rfl
  | cont =>
    obtain rfl := Except.ok.inj written
    exact @Head.of_jump _ _ "continue" (by decide) rfl
  | discard =>
    obtain rfl := Except.ok.inj written
    exact @Head.of_jump _ _ "discard" (by decide) rfl

/-- The last character of the first line. -/
def ending : Stmt → Char
  | .block _ => '\x7b'
  | .ifThen _ _ | .ifElse _ _ _ | .loop _ _ => ')'
  | .declare _ _ | .eval _ | .assign _ _ | .ret _ | .brk | .cont | .discard => ';'

/-- The line of a simple statement ends with a semicolon. -/
theorem Simple.ending_eq {stmt : Stmt} {phrase : Phrase .whole} {rest : List Char}
    (simple : tables.Simple stmt phrase rest) : ending stmt = ';' := by
  cases simple with
  | jump _ made => cases stmt <;> first | rfl | cases made
  | eval | assign | handBack => rfl

/-- The last character of a first line is the one that its statement asks for. -/
theorem Head.getLast?_eq {stmt : Stmt} {text : List Char} (head : tables.Head stmt text) :
    text.getLast? = some (ending stmt) := by
  cases head with
  | simple simple => rw [← List.append_assoc, List.getLast?_concat, simple.ending_eq]
  | declare | ifThen | ifElse | loop => rw [← List.append_assoc, List.getLast?_concat, ending]
  | block => rfl

/-- A statement without what is nested in it. -/
def outside : Stmt → Stmt
  | .ifThen condition _ | .ifElse condition _ _ => .ifThen condition []
  | .loop condition _ => .loop condition []
  | .block _ => .block []
  | stmt => stmt

/-- A declaration does not read like another statement. -/
theorem not_declared_of_simple (legible : tables.Legible) {stmt : Stmt} {id : VariableId}
    {text : String} {phrase : Phrase .whole} {rest others : List Char}
    (written : tables.variableDeclarationText id = .ok text)
    (simple : tables.Simple stmt phrase others) :
    text.toList ++ (rest ++ [';']) ≠ phrase.text ++ (others ++ [';']) := by
  intro same
  obtain ⟨name, first, between, -, opening⟩ := exists_opening legible written
  rw [opening.text_eq, List.append_assoc, List.cons_append] at same
  obtain ⟨follows, noKeyword⟩ := opening.qualifier.follows (simple.ends []) same
  obtain ⟨c, tail, begins, inWord⟩ := opening.declaration.begins
  rw [begins, List.cons_append] at follows
  cases simple with
  | eval | jump => exact absurd (List.cons.inj follows).1 (by decide)
  | assign =>
    obtain rfl := (List.cons.inj (List.cons.inj follows).2).1
    cases inWord
  | handBack known =>
    simp only [Phrase.text, List.append_nil, IsWord.word, String.ofList_toList] at noKeyword
    exact noKeyword (by decide)

/-- The first line of a statement tells the statement up to what is nested in it. -/
theorem Head.inj (legible : tables.Legible) {first second : Stmt} {text other : List Char}
    (head : tables.Head first text) (otherHead : tables.Head second other)
    (same : text = other) : outside first = outside second := by
  have sameEnding : ending first = ending second := by
    have sameLast := congrArg List.getLast? same
    rw [head.getLast?_eq, otherHead.getLast?_eq] at sameLast
    exact Option.some.inj sameLast
  cases head with
  | @declare id initial text rest written assigned =>
    cases otherHead with
    | declare otherWritten otherAssigned =>
      rw [← List.append_assoc, ← List.append_assoc] at same
      have sameText := List.append_cancel_right same
      obtain rfl := legible.declared_inj written otherWritten assigned.follows
        otherAssigned.follows sameText
      obtain rfl := Except.ok.inj (written.symm.trans otherWritten)
      rw [assigned.inj legible otherAssigned (List.append_cancel_left sameText)]
    | simple simple => exact absurd same (not_declared_of_simple legible written simple)
    | ifThen | ifElse | loop | block => cases sameEnding
  | simple simple =>
    cases otherHead with
    | declare written => exact absurd same.symm (not_declared_of_simple legible written simple)
    | simple otherSimple =>
      obtain ⟨samePhrase, sameRest⟩ :=
        @text_append_inj .whole _ _ _ _ (simple.ends []) (otherSimple.ends []) same
      rw [simple.inj legible otherSimple samePhrase (List.append_cancel_right sameRest)]
    | ifThen | ifElse | loop | block => cases simple.ending_eq.symm.trans sameEnding
  | ifThen tells =>
    cases otherHead with
    | ifThen otherTells | ifElse otherTells =>
      obtain rfl := text_injective (List.append_cancel_right (List.append_cancel_left same))
      rw [outside, outside, tells.inj legible otherTells]
    | loop => exact absurd (List.cons.inj same).1 (by decide)
    | simple simple => cases sameEnding.trans simple.ending_eq
    | declare | block => cases sameEnding
  | ifElse tells =>
    cases otherHead with
    | ifThen otherTells | ifElse otherTells =>
      obtain rfl := text_injective (List.append_cancel_right (List.append_cancel_left same))
      rw [outside, outside, tells.inj legible otherTells]
    | loop => exact absurd (List.cons.inj same).1 (by decide)
    | simple simple => cases sameEnding.trans simple.ending_eq
    | declare | block => cases sameEnding
  | loop tells =>
    cases otherHead with
    | loop otherTells =>
      obtain rfl := text_injective (List.append_cancel_right (List.append_cancel_left same))
      rw [outside, outside, tells.inj legible otherTells]
    | ifThen | ifElse => exact absurd (List.cons.inj same).1 (by decide)
    | simple simple => cases sameEnding.trans simple.ending_eq
    | declare | block => cases sameEnding
  | block =>
    cases otherHead with
    | block => rfl
    | simple simple => cases sameEnding.trans simple.ending_eq
    | declare | ifThen | ifElse | loop => cases sameEnding

/-! ## Statements and blocks -/

/-- At the same depth, equal lines have equal texts. -/
theorem line_inj {depth : Nat} {first second : String}
    (same : line depth first = line depth second) : first = second :=
  (String.append_right_inj _).mp same

/-- Indenting a text keeps its last character. -/
theorem getLast?_line (depth : Nat) {text : String} {c : Char}
    (isLast : text.toList.getLast? = some c) : (line depth text).toList.getLast? = some c := by
  rw [line, String.toList_append, List.getLast?_append, isLast]
  rfl

/-- The lines of a statement whose expressions can be read. -/
structure Shows (tables : Tables) (depth : Nat) (stmt : Stmt) (lines : List String) : Prop where
  written : tables.stmtLines depth stmt = .ok lines
  readable : ∀ root ∈ stmt.roots, tables.Readable root

/-- The lines of a block whose expressions can be read, up to the closing one. -/
structure ShowsBlock (tables : Tables) (depth : Nat) (body : Block) (lines : List String) :
    Prop where
  written : tables.nestedLines depth body = .ok lines
  readable : ∀ root ∈ Block.roots body, tables.Readable root

/-- The lines of a statement are its first line, which can be read, and the others. -/
theorem Shows.exists_head {depth : Nat} {stmt : Stmt} {lines : List String}
    (shows : tables.Shows depth stmt lines) : ∃ head more, tables.Head stmt head.toList ∧
      tables.moreLines depth stmt = .ok more ∧ lines = line depth head :: more := by
  have written := shows.written
  rw [stmtLines_eq] at written
  simp only [Outcome.bind_eq_ok_iff] at written
  obtain ⟨head, headWritten, more, moreWritten, same⟩ := written
  refine ⟨head, more, Tables.exists_head headWritten fun expr own => shows.readable expr ?_,
    moreWritten, (Except.ok.inj same).symm⟩
  exact List.mem_flatMap.mpr ⟨stmt, stmt.self_mem_nodes, own⟩

/-- The first line of a statement is neither that of an alternative nor a closing one. -/
theorem Shows.head_ne {depth : Nat} {stmt : Stmt} {lines : List String}
    (shows : tables.Shows depth stmt lines) (rest : List String) {next : String}
    (isFirst : (lines ++ rest).head? = some next) :
    next ≠ line depth "else" ∧ ∀ outer, next ≠ closing outer := by
  obtain ⟨head, more, isHead, -, rfl⟩ := shows.exists_head
  obtain rfl : line depth head = next := by simpa using isFirst
  have isLast := getLast?_line depth isHead.getLast?_eq
  have noLast : ending stmt ≠ 'e' ∧ ending stmt ≠ '\x7d' := by
    cases stmt <;> simp [ending]
  constructor
  · intro same
    rw [same, getLast?_line depth (show "else".toList.getLast? = some 'e' from rfl)] at isLast
    exact noLast.1 (Option.some.inj isLast).symm
  · intro outer same
    rw [same, closing, getLast?_line outer (show "\x7d".toList.getLast? = some '\x7d' from rfl)]
      at isLast
    exact noLast.2 (Option.some.inj isLast).symm

/-- What may follow the lines of a statement: not the line of an alternative. -/
def NoElse (depth : Nat) (lines : List String) : Prop :=
  ∀ next ∈ lines.head?, next ≠ line depth "else"

/-- A statement is told by its lines, whatever follows them. -/
def Told (tables : Tables) (first : Stmt) : Prop :=
  ∀ {depth : Nat} {second : Stmt} {lines others rest otherRest : List String},
    tables.Shows depth first lines → tables.Shows depth second others →
      NoElse depth rest → NoElse depth otherRest → lines ++ rest = others ++ otherRest →
        first = second ∧ rest = otherRest

/-- An empty block has no line but the closing one. -/
theorem ShowsBlock.nil {depth : Nat} {lines : List String}
    (shows : tables.ShowsBlock depth [] lines) : lines = [closing depth] :=
  (Except.ok.inj shows.written).symm

/-- The lines of a block are those of its first statement and those of the others. -/
theorem ShowsBlock.cons {depth : Nat} {stmt : Stmt} {body : Block} {lines : List String}
    (shows : tables.ShowsBlock depth (stmt :: body) lines) : ∃ first rest,
      tables.Shows (depth + 1) stmt first ∧ tables.ShowsBlock depth body rest ∧
        lines = first ++ rest := by
  obtain ⟨written, readable⟩ := shows
  simp only [nestedLines, stmtsLines, Outcome.bind_eq_ok_iff] at written
  obtain ⟨all, ⟨first, firstWritten, rest, restWritten, sameAll⟩, same⟩ := written
  obtain rfl := Except.ok.inj sameAll
  obtain rfl := Except.ok.inj same
  rw [Block.roots_cons, List.forall_mem_append] at readable
  refine ⟨first, rest ++ [closing depth], ⟨firstWritten, readable.1⟩, ⟨?_, readable.2⟩, by simp⟩
  simp only [nestedLines, restWritten, Outcome.ok_bind]
  rfl

/-- Nothing in a block goes on with an alternative for the statement before it. -/
theorem ShowsBlock.noElse {depth : Nat} {body : Block} {lines : List String}
    (shows : tables.ShowsBlock depth body lines) (rest : List String) :
    NoElse (depth + 1) (lines ++ rest) := by
  intro next isFirst
  cases body with
  | nil =>
    obtain rfl := shows.nil
    obtain rfl : closing depth = next := by simpa using isFirst
    intro same
    have isLast := getLast?_line depth (show "\x7d".toList.getLast? = some '\x7d' from rfl)
    rw [← closing, same,
      getLast?_line _ (show "else".toList.getLast? = some 'e' from rfl)] at isLast
    exact absurd (Option.some.inj isLast) (by decide)
  | cons stmt body =>
    obtain ⟨first, others, showsFirst, -, rfl⟩ := shows.cons
    rw [List.append_assoc] at isFirst
    exact (showsFirst.head_ne _ isFirst).1

/-- A block is told by its lines up to the closing one. -/
theorem ShowsBlock.inj {depth : Nat} {first second : Block}
    {lines others rest otherRest : List String} (told : ∀ stmt ∈ first, tables.Told stmt)
    (shows : tables.ShowsBlock depth first lines)
    (otherShows : tables.ShowsBlock depth second others)
    (same : lines ++ rest = others ++ otherRest) : first = second ∧ rest = otherRest := by
  induction first generalizing second lines others with
  | nil =>
    obtain rfl := shows.nil
    cases second with
    | nil =>
      obtain rfl := otherShows.nil
      exact ⟨rfl, (List.cons.inj same).2⟩
    | cons stmt body =>
      obtain ⟨lines, more, showsFirst, -, rfl⟩ := otherShows.cons
      rw [List.append_assoc] at same
      exact absurd rfl ((showsFirst.head_ne _ (by rw [← same]; rfl)).2 depth)
  | cons stmt body inductionHypothesis =>
    rw [List.forall_mem_cons] at told
    obtain ⟨lines, more, showsFirst, showsRest, rfl⟩ := shows.cons
    rw [List.append_assoc] at same
    cases second with
    | nil =>
      obtain rfl := otherShows.nil
      exact absurd rfl ((showsFirst.head_ne _ (by rw [same]; rfl)).2 depth)
    | cons other otherBody =>
      obtain ⟨otherLines, otherMore, showsOther, showsOtherRest, rfl⟩ := otherShows.cons
      rw [List.append_assoc] at same
      obtain ⟨rfl, sameMore⟩ := told.1 showsFirst showsOther (showsRest.noElse rest)
        (showsOtherRest.noElse otherRest) same
      obtain ⟨rfl, rfl⟩ := inductionHypothesis told.2 showsRest showsOtherRest sameMore
      exact ⟨rfl, rfl⟩

/-- Lines that agree come from statements that agree up to what is nested in them. -/
theorem Shows.alike (legible : tables.Legible) {depth : Nat} {first second : Stmt}
    {lines others rest otherRest : List String} (shows : tables.Shows depth first lines)
    (otherShows : tables.Shows depth second others) (same : lines ++ rest = others ++ otherRest) :
    ∃ more otherMore, tables.moreLines depth first = .ok more ∧
      tables.moreLines depth second = .ok otherMore ∧ outside first = outside second ∧
        more ++ rest = otherMore ++ otherRest := by
  obtain ⟨head, more, isHead, moreWritten, rfl⟩ := shows.exists_head
  obtain ⟨otherHead, otherMore, isOtherHead, otherWritten, rfl⟩ := otherShows.exists_head
  rw [List.cons_append, List.cons_append, List.cons.injEq] at same
  exact ⟨more, otherMore, moreWritten, otherWritten,
    isHead.inj legible isOtherHead (congrArg String.toList (line_inj same.1)), same.2⟩

/-- A statement without nested ones is all that it is outside. -/
theorem eq_of_outside {first second : Stmt} (simple : first.inner = [])
    (alike : outside first = outside second) : first = second := by
  have unchanged : outside first = first := by cases first <;> first | rfl | cases simple
  rw [unchanged] at alike
  subst alike
  cases second <;> first | rfl | cases simple

/-- A statement without nested ones is told by its only line. -/
theorem told_of_simple (legible : tables.Legible) {stmt : Stmt} (simple : stmt.inner = []) :
    tables.Told stmt := by
  intro depth second lines others rest otherRest shows otherShows _ _ same
  obtain ⟨more, otherMore, moreWritten, otherWritten, alike, sameMore⟩ :=
    shows.alike legible otherShows same
  obtain rfl := eq_of_outside simple alike
  obtain rfl := Except.ok.inj (moreWritten.symm.trans otherWritten)
  exact ⟨rfl, List.append_cancel_left sameMore⟩

section Nested

variable {depth : Nat} {condition : Expr} {yes no body : Block} {lines more : List String}

/-- After the first line of a conditional comes its block between braces. -/
theorem Shows.ifThen (shows : tables.Shows depth (.ifThen condition yes) lines)
    (written : tables.moreLines depth (.ifThen condition yes) = .ok more) :
    ∃ inner, tables.ShowsBlock depth yes inner ∧ more = opening depth :: inner := by
  obtain ⟨inner, innerWritten, same⟩ := Outcome.bind_eq_ok_iff.mp written
  have readable := shows.readable
  rw [Stmt.roots_ifThen, List.forall_mem_cons] at readable
  exact ⟨inner, ⟨innerWritten, readable.2⟩, (Except.ok.inj same).symm⟩

/-- So does the body of a loop. -/
theorem Shows.loop (shows : tables.Shows depth (.loop condition body) lines)
    (written : tables.moreLines depth (.loop condition body) = .ok more) :
    ∃ inner, tables.ShowsBlock depth body inner ∧ more = opening depth :: inner := by
  obtain ⟨inner, innerWritten, same⟩ := Outcome.bind_eq_ok_iff.mp written
  have readable := shows.readable
  rw [Stmt.roots_loop, List.forall_mem_cons] at readable
  exact ⟨inner, ⟨innerWritten, readable.2⟩, (Except.ok.inj same).symm⟩

/-- An alternative has a line of its own between the two blocks. -/
theorem Shows.ifElse (shows : tables.Shows depth (.ifElse condition yes no) lines)
    (written : tables.moreLines depth (.ifElse condition yes no) = .ok more) :
    ∃ inner other, tables.ShowsBlock depth yes inner ∧ tables.ShowsBlock depth no other ∧
      more = opening depth :: inner ++ line depth "else" :: opening depth :: other := by
  simp only [moreLines, Outcome.bind_eq_ok_iff] at written
  obtain ⟨inner, innerWritten, other, otherWritten, same⟩ := written
  have readable := shows.readable
  rw [Stmt.roots_ifElse, List.forall_mem_cons, List.forall_mem_append] at readable
  exact ⟨inner, other, ⟨innerWritten, readable.2.1⟩, ⟨otherWritten, readable.2.2⟩,
    (Except.ok.inj same).symm⟩

/-- After the opening brace of a nested block come its lines. -/
theorem Shows.block (shows : tables.Shows depth (.block body) lines)
    (written : tables.moreLines depth (.block body) = .ok more) :
    tables.ShowsBlock depth body more := by
  have readable := shows.readable
  rw [Stmt.roots_block] at readable
  exact ⟨written, readable⟩

end Nested

/-- Every statement is told by its lines. -/
theorem told (legible : tables.Legible) (stmt : Stmt) : tables.Told stmt := by
  induction stmt with
  | ifThen condition yes inYes =>
    intro depth second lines others rest otherRest shows otherShows noElse otherNoElse same
    obtain ⟨more, otherMore, moreWritten, otherWritten, alike, sameMore⟩ :=
      shows.alike legible otherShows same
    obtain ⟨inner, showsYes, rfl⟩ := shows.ifThen moreWritten
    cases second <;> try (cases alike; done)
    case ifThen otherCondition otherYes =>
      obtain ⟨otherInner, showsOther, rfl⟩ := otherShows.ifThen otherWritten
      obtain ⟨rfl, rfl⟩ := showsYes.inj inYes showsOther (List.cons.inj sameMore).2
      cases alike
      exact ⟨rfl, rfl⟩
    case ifElse otherCondition otherYes no =>
      -- What follows the first block would be the alternative of the second statement.
      obtain ⟨otherInner, noLines, showsOther, -, rfl⟩ := otherShows.ifElse otherWritten
      simp only [List.cons_append, List.append_assoc, List.cons.injEq, true_and] at sameMore
      obtain ⟨-, rfl⟩ := showsYes.inj inYes showsOther sameMore
      exact absurd rfl (noElse _ rfl)
  | ifElse condition yes no inYes inNo =>
    intro depth second lines others rest otherRest shows otherShows noElse otherNoElse same
    obtain ⟨more, otherMore, moreWritten, otherWritten, alike, sameMore⟩ :=
      shows.alike legible otherShows same
    obtain ⟨inner, noLines, showsYes, showsNo, rfl⟩ := shows.ifElse moreWritten
    cases second <;> try (cases alike; done)
    case ifThen otherCondition otherYes =>
      obtain ⟨otherInner, showsOther, rfl⟩ := otherShows.ifThen otherWritten
      simp only [List.cons_append, List.append_assoc, List.cons.injEq, true_and] at sameMore
      obtain ⟨-, rfl⟩ := showsYes.inj inYes showsOther sameMore
      exact absurd rfl (otherNoElse _ rfl)
    case ifElse otherCondition otherYes otherNo =>
      obtain ⟨otherInner, otherNoLines, showsOther, showsOtherNo, rfl⟩ :=
        otherShows.ifElse otherWritten
      simp only [List.cons_append, List.append_assoc, List.cons.injEq, true_and] at sameMore
      obtain ⟨rfl, afterYes⟩ := showsYes.inj inYes showsOther sameMore
      simp only [List.cons.injEq, true_and] at afterYes
      obtain ⟨rfl, rfl⟩ := showsNo.inj inNo showsOtherNo afterYes
      cases alike
      exact ⟨rfl, rfl⟩
  | loop condition body inBody =>
    intro depth second lines others rest otherRest shows otherShows noElse otherNoElse same
    obtain ⟨more, otherMore, moreWritten, otherWritten, alike, sameMore⟩ :=
      shows.alike legible otherShows same
    obtain ⟨inner, showsBody, rfl⟩ := shows.loop moreWritten
    cases second <;> try (cases alike; done)
    case loop otherCondition otherBody =>
      obtain ⟨otherInner, showsOther, rfl⟩ := otherShows.loop otherWritten
      obtain ⟨rfl, rfl⟩ := showsBody.inj inBody showsOther (List.cons.inj sameMore).2
      cases alike
      exact ⟨rfl, rfl⟩
  | block body inBody =>
    intro depth second lines others rest otherRest shows otherShows noElse otherNoElse same
    obtain ⟨more, otherMore, moreWritten, otherWritten, alike, sameMore⟩ :=
      shows.alike legible otherShows same
    cases second <;> try (cases alike; done)
    case block otherBody =>
      obtain ⟨rfl, rfl⟩ := (shows.block moreWritten).inj inBody (otherShows.block otherWritten)
        sameMore
      exact ⟨rfl, rfl⟩
  | _ => exact told_of_simple legible rfl

end Tables

end ShaderPipeline
