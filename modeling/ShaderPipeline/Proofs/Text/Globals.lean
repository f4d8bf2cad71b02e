import ShaderPipeline.Proofs.Text.Lines

/-!
# Global declarations from their lines

The first line of a global declaration tells what is declared: a function ends with the
parenthesis after its parameters, a prototype and a variable end with a semicolon, and
what stands before it ends with a parenthesis only in a prototype. The lines of a body
tell the body. No line holds a line break, so the lines can be found in the text again.
-/

namespace ShaderPipeline

open Phrase

/-! ## Texts on one line -/

/-- A text without line breaks. -/
def OneLine (text : String) : Prop := '\n' ∉ text.toList

/-- Two texts without line breaks have none together. -/
theorem OneLine.append {first second : String} (oneLine : OneLine first) (other : OneLine second) :
    OneLine (first ++ second) := by
  rw [OneLine, String.toList_append, List.mem_append, not_or]
  exact ⟨oneLine, other⟩

/-- Nor have several of them with commas in between. -/
theorem OneLine.intercalate {parts : List String} (each : ∀ part ∈ parts, OneLine part) :
    OneLine (", ".intercalate parts) := by
  induction parts with
  | nil => exact List.not_mem_nil
  | cons part parts inductionHypothesis =>
    rw [List.forall_mem_cons] at each
    cases parts with
    | nil => simpa using each.1
    | cons next parts =>
      rw [String.intercalate_cons_cons]
      exact (each.1.append (show '\n' ∉ _ by decide)).append (inductionHypothesis each.2)

namespace Tables

variable {tables : Tables}

/-- Indenting a text brings no line break in. -/
theorem oneLine_line (depth : Nat) {text : String} (oneLine : OneLine text) :
    OneLine (line depth text) := by
  have noIndent : '\n' ∉ (String.join (List.replicate depth "    ")).toList := by
    rw [String.toList_join, List.mem_flatMap]
    rintro ⟨blanks, member, inside⟩
    obtain rfl := List.eq_of_mem_replicate member
    exact absurd inside (by decide)
  rw [OneLine, line, String.toList_append, List.mem_append, not_or]
  exact ⟨noIndent, oneLine⟩

/-- The line that opens a block is one line. -/
theorem oneLine_opening (depth : Nat) : OneLine (opening depth) :=
  oneLine_line depth (show '\n' ∉ "\x7b".toList by decide)

/-- So is the one that closes it. -/
theorem oneLine_closing (depth : Nat) : OneLine (closing depth) :=
  oneLine_line depth (show '\n' ∉ "\x7d".toList by decide)

/-- A declaration stands on one line. -/
theorem Opening.oneLine {name text : String} {first rest : List Char}
    (opening : Opening name text.toList first rest) : OneLine text :=
  opening.declared.newline_not_mem

/-- The declaration of a variable is one line. -/
theorem oneLine_declaration (legible : tables.Legible) {id : VariableId} {text : String}
    (written : tables.variableDeclarationText id = .ok text) : OneLine text := by
  obtain ⟨name, first, rest, -, opening⟩ := exists_opening legible written
  exact opening.oneLine

/-- So is the signature of a function. -/
theorem oneLine_signature (legible : tables.Legible) {id : FunctionId} {text : String}
    (written : tables.signatureText id = .ok text) : OneLine text := by
  simp only [signatureText, Outcome.bind_eq_ok_iff] at written
  obtain ⟨function, known, returned, spelled, params, paramsWritten, same⟩ := written
  obtain rfl := Except.ok.inj same
  have isName := legible.functions (functionAt_eq_ok_iff.mp known)
  obtain ⟨phrase, isType⟩ := exists_typePhrase legible spelled
  have ofReturned : OneLine returned := isType.not_mem rfl
  have ofName : OneLine (function.name.spell id.index) := isName.not_mem rfl
  have ofPrecision : OneLine (if function.returnPrecision = .notApplicable then "" else
      function.returnPrecision.text ++ " ") := by
    cases function.returnPrecision <;> exact show '\n' ∉ _ by decide
  have ofParams : OneLine (", ".intercalate params) := by
    refine OneLine.intercalate fun part member => ?_
    obtain ⟨param, -, partWritten⟩ := Outcome.forall₂_exists_left
      (Outcome.mapM_eq_ok_iff.mp paramsWritten) member
    obtain ⟨declaration, declared, same⟩ := Outcome.bind_eq_ok_iff.mp partWritten
    obtain rfl := Except.ok.inj same
    have ofDirection : OneLine param.direction.text := by
      cases param.direction <;> exact show '\n' ∉ _ by decide
    exact ofDirection.append (oneLine_declaration legible declared)
  have marks : OneLine " " ∧ OneLine "(" ∧ OneLine ")" := by
    simp [OneLine]
  exact (((((ofPrecision.append ofReturned).append marks.1).append ofName).append marks.2.1).append
    ofParams).append marks.2.2

/-- So is the first line of every statement. -/
theorem Head.newline_not_mem (legible : tables.Legible) {stmt : Stmt} {text : List Char}
    (head : tables.Head stmt text) : '\n' ∉ text := by
  cases head with
  | declare written assigned =>
    have noDeclaration := oneLine_declaration legible written
    cases assigned with
    | none => simpa [OneLine] using noDeclaration
    | @some value phrase => simpa [OneLine, phrase.newline_not_mem] using noDeclaration
  | @simple _ phrase rest simple =>
    have noRest : '\n' ∉ rest := by
      cases simple with
      | @assign _ _ _ after => simp [after.newline_not_mem]
      | @handBack _ phrase => simp [phrase.newline_not_mem]
      | eval | jump => simp
    simp [phrase.newline_not_mem, noRest]
  | @ifThen _ _ phrase | @ifElse _ _ _ phrase | @loop _ _ phrase => simp [phrase.newline_not_mem]
  | block => decide

/-- Every line of a block is one if those of its statements are. -/
theorem ShowsBlock.oneLine {depth : Nat} {body : Block} {lines : List String}
    (shows : tables.ShowsBlock depth body lines)
    (each : ∀ stmt ∈ body, ∀ {depth : Nat} {lines : List String}, tables.Shows depth stmt lines →
      ∀ line ∈ lines, OneLine line) : ∀ line ∈ lines, OneLine line := by
  induction body generalizing lines with
  | nil =>
    obtain rfl := shows.nil
    exact List.forall_mem_singleton.mpr (oneLine_closing depth)
  | cons stmt body inductionHypothesis =>
    rw [List.forall_mem_cons] at each
    obtain ⟨first, rest, showsFirst, showsRest, rfl⟩ := shows.cons
    exact List.forall_mem_append.mpr ⟨each.1 showsFirst, inductionHypothesis showsRest each.2⟩

/-- Every line of a statement is one. -/
theorem Shows.oneLine (legible : tables.Legible) {depth : Nat} {stmt : Stmt} {lines : List String}
    (shows : tables.Shows depth stmt lines) : ∀ line ∈ lines, OneLine line := by
  induction stmt generalizing depth lines with
  | ifThen condition yes inYes =>
    obtain ⟨head, more, isHead, moreWritten, rfl⟩ := shows.exists_head
    obtain ⟨inner, showsYes, rfl⟩ := shows.ifThen moreWritten
    simp only [List.forall_mem_cons]
    exact ⟨oneLine_line depth (isHead.newline_not_mem legible), oneLine_opening depth,
      showsYes.oneLine inYes⟩
  | ifElse condition yes no inYes inNo =>
    obtain ⟨head, more, isHead, moreWritten, rfl⟩ := shows.exists_head
    obtain ⟨inner, noLines, showsYes, showsNo, rfl⟩ := shows.ifElse moreWritten
    simp only [List.forall_mem_cons, List.forall_mem_append]
    exact ⟨oneLine_line depth (isHead.newline_not_mem legible),
      ⟨oneLine_opening depth, showsYes.oneLine inYes⟩,
      oneLine_line depth (show '\n' ∉ "else".toList by decide), oneLine_opening depth,
      showsNo.oneLine inNo⟩
  | loop condition body inBody =>
    obtain ⟨head, more, isHead, moreWritten, rfl⟩ := shows.exists_head
    obtain ⟨inner, showsBody, rfl⟩ := shows.loop moreWritten
    simp only [List.forall_mem_cons]
    exact ⟨oneLine_line depth (isHead.newline_not_mem legible), oneLine_opening depth,
      showsBody.oneLine inBody⟩
  | block body inBody =>
    obtain ⟨head, more, isHead, moreWritten, rfl⟩ := shows.exists_head
    rw [List.forall_mem_cons]
    exact ⟨oneLine_line depth (isHead.newline_not_mem legible),
      (shows.block moreWritten).oneLine inBody⟩
  | _ =>
    obtain ⟨head, more, isHead, moreWritten, rfl⟩ := shows.exists_head
    obtain rfl := Except.ok.inj moreWritten
    exact List.forall_mem_singleton.mpr (oneLine_line depth (isHead.newline_not_mem legible))

/-! ## Global declarations -/

/-- What the first line of a global declaration reads as. -/
inductive GlobalHead (tables : Tables) : Global → String → Prop
  | struct {type : TypeId} {name : String} (isName : IsName name)
      (spelled : tables.typeText type = .ok name) :
      GlobalHead tables (.struct type) ("struct " ++ name)
  | var {id : VariableId} {text : String} (written : tables.variableDeclarationText id = .ok text) :
      GlobalHead tables (.var id) (text ++ ";")
  | prototype {function : FunctionId} {text : String}
      (written : tables.signatureText function = .ok text) :
      GlobalHead tables (.prototype function) (text ++ ";")
  | definition {function : FunctionId} {body : Block} {text : String}
      (written : tables.signatureText function = .ok text) :
      GlobalHead tables (.definition function body) text

/-- A declaration without its body. -/
def declared : Global → Global
  | .definition function _ => .definition function []
  | global => global

/-- A text with a semicolon behind it ends with the semicolon. -/
theorem getLast?_append_mark (text : String) : (text ++ ";").toList.getLast? = some ';' := by simp

/-- A signature ends with the parenthesis that closes its parameters. -/
theorem getLast?_signature (legible : tables.Legible) {id : FunctionId} {text : String}
    (written : tables.signatureText id = .ok text) : text.toList.getLast? = some ')' := by
  obtain ⟨name, front, params, -, -, -, split⟩ := exists_signature legible written
  rw [split, ← List.cons_append, ← List.append_assoc, List.getLast?_concat]

/-- The declaration of a variable does not end with a parenthesis. -/
theorem getLast?_declaration (legible : tables.Legible) {id : VariableId} {text : String}
    (written : tables.variableDeclarationText id = .ok text) : text.toList.getLast? ≠ some ')' := by
  obtain ⟨name, first, rest, -, opening⟩ := exists_opening legible written
  exact opening.declared.getLast?_ne

/-- The first line of a struct ends with a character of its name. -/
theorem getLast?_struct {name : String} (isName : IsName name) {c : Char}
    (other : (c.isAlphanum || c = '_') = false) : ("struct " ++ name).toList.getLast? ≠ some c := by
  obtain ⟨⟨first, rest, begins, -⟩, -⟩ := isName.isWord
  rw [String.toList_append, begins, List.getLast?_append_cons, ← begins]
  exact fun isLast => isName.not_mem other (List.mem_of_getLast? isLast)

/-- The first line of a declaration tells what is declared. -/
theorem GlobalHead.inj (legible : tables.Legible) {first second : Global} {text other : String}
    (head : tables.GlobalHead first text) (otherHead : tables.GlobalHead second other)
    (distinctive : ∀ type, first = .struct type → tables.Distinctive type) (same : text = other) :
    declared first = declared second := by
  have sameLast := congrArg (fun text => text.toList.getLast?) same
  cases head with
  | struct isName spelled =>
    cases otherHead with
    | struct _ otherSpelled =>
      obtain rfl := (String.append_right_inj _).mp same
      rw [distinctive _ rfl spelled otherSpelled]
    | var | prototype =>
      exact absurd (sameLast.trans (getLast?_append_mark _)) (getLast?_struct isName rfl)
    | definition written =>
      exact absurd (sameLast.trans (getLast?_signature legible written))
        (getLast?_struct isName rfl)
  | var written =>
    cases otherHead with
    | struct isName =>
      exact absurd (sameLast.symm.trans (getLast?_append_mark _)) (getLast?_struct isName rfl)
    | var otherWritten =>
      obtain rfl := (String.append_left_inj _).mp same
      rw [legible.declared_inj written otherWritten (.inl rfl) (.inl rfl) rfl]
    | prototype otherWritten =>
      obtain rfl := (String.append_left_inj _).mp same
      exact absurd (getLast?_signature legible otherWritten) (getLast?_declaration legible written)
    | definition otherWritten =>
      cases (getLast?_append_mark _).symm.trans
        (sameLast.trans (getLast?_signature legible otherWritten))
  | prototype written =>
    cases otherHead with
    | struct isName =>
      exact absurd (sameLast.symm.trans (getLast?_append_mark _)) (getLast?_struct isName rfl)
    | var otherWritten =>
      obtain rfl := (String.append_left_inj _).mp same
      exact absurd (getLast?_signature legible written) (getLast?_declaration legible otherWritten)
    | prototype otherWritten =>
      obtain rfl := (String.append_left_inj _).mp same
      rw [legible.signature_inj written otherWritten]
    | definition otherWritten =>
      cases (getLast?_append_mark _).symm.trans
        (sameLast.trans (getLast?_signature legible otherWritten))
  | definition written =>
    cases otherHead with
    | struct isName =>
      exact absurd (sameLast.symm.trans (getLast?_signature legible written))
        (getLast?_struct isName rfl)
    | var | prototype =>
      cases (getLast?_append_mark _).symm.trans
        (sameLast.symm.trans (getLast?_signature legible written))
    | definition otherWritten =>
      subst same
      rw [declared, declared, legible.signature_inj written otherWritten]

/-- The lines of a declaration whose expressions can be read. -/
structure ShowsGlobal (tables : Tables) (global : Global) (lines : List String) : Prop where
  written : tables.globalLines global = .ok lines
  readable : ∀ function body, global = .definition function body →
    ∀ root ∈ Block.roots body, tables.Readable root

/-- The lines of a declaration are its first line, which can be read, and the others. -/
theorem ShowsGlobal.exists_head (legible : tables.Legible) {global : Global} {lines : List String}
    (shows : tables.ShowsGlobal global lines) :
    ∃ head more, tables.GlobalHead global head ∧ lines = line 0 head :: more := by
  have written := shows.written
  cases global with
  | struct type =>
    simp only [globalLines, Outcome.bind_eq_ok_iff] at written
    obtain ⟨spelling, spelled, fields, ofType, fieldTexts, -, same⟩ := written
    obtain ⟨name, isStruct⟩ := fieldsOf_eq_ok_iff.mp ofType
    have named : tables.typeText type = .ok (name.spell type.index) := by
      simp only [typeText, typeTextWithin, typeAt_eq_ok_iff.mpr isStruct, Outcome.ok_bind]
      rfl
    obtain rfl := Except.ok.inj (spelled.symm.trans named)
    exact ⟨_, _, .struct (legible.structs isStruct) named, (Except.ok.inj same).symm⟩
  | var id =>
    obtain ⟨text, declared, same⟩ := Outcome.bind_eq_ok_iff.mp written
    exact ⟨_, _, .var declared, (Except.ok.inj same).symm⟩
  | prototype function =>
    obtain ⟨text, signed, same⟩ := Outcome.bind_eq_ok_iff.mp written
    exact ⟨_, _, .prototype signed, (Except.ok.inj same).symm⟩
  | definition function body =>
    simp only [globalLines, Outcome.bind_eq_ok_iff] at written
    obtain ⟨text, signed, bodyLines, -, same⟩ := written
    exact ⟨_, _, .definition signed, (Except.ok.inj same).symm⟩

/-- A definition is its signature and its body between braces. -/
theorem ShowsGlobal.definition {function : FunctionId} {body : Block} {lines : List String}
    (shows : tables.ShowsGlobal (.definition function body) lines) : ∃ text inner,
      tables.signatureText function = .ok text ∧ tables.ShowsBlock 0 body inner ∧
        lines = line 0 text :: opening 0 :: inner := by
  have written := shows.written
  simp only [globalLines, Outcome.bind_eq_ok_iff] at written
  obtain ⟨text, signed, bodyLines, bodyWritten, same⟩ := written
  refine ⟨text, bodyLines ++ [closing 0], signed, ⟨?_, shows.readable function body rfl⟩,
    (Except.ok.inj same).symm⟩
  simp only [nestedLines, bodyWritten, Outcome.ok_bind]
  rfl

/-- A declaration is told by its lines, whatever follows them. -/
theorem ShowsGlobal.inj (legible : tables.Legible) {first second : Global}
    {lines others rest otherRest : List String} (shows : tables.ShowsGlobal first lines)
    (otherShows : tables.ShowsGlobal second others)
    (distinctive : ∀ type, first = .struct type → tables.Distinctive type)
    (same : lines ++ rest = others ++ otherRest) : first = second ∧ rest = otherRest := by
  have alike : declared first = declared second := by
    obtain ⟨head, more, isHead, rfl⟩ := shows.exists_head legible
    obtain ⟨otherHead, otherMore, isOtherHead, rfl⟩ := otherShows.exists_head legible
    rw [List.cons_append, List.cons_append, List.cons.injEq] at same
    exact isHead.inj legible isOtherHead distinctive (line_inj same.1)
  -- A declaration without a body has the same lines as before.
  have unchanged (equal : first = second) : first = second ∧ rest = otherRest := by
    subst equal
    obtain rfl := Except.ok.inj (shows.written.symm.trans otherShows.written)
    exact ⟨rfl, List.append_cancel_left same⟩
  cases first with
  | definition function body =>
    cases second <;> try (cases alike; done)
    case definition otherFunction otherBody =>
      cases alike
      obtain ⟨text, inner, -, showsBody, rfl⟩ := shows.definition
      obtain ⟨otherText, otherInner, -, showsOther, rfl⟩ := otherShows.definition
      simp only [List.cons_append, List.cons.injEq, true_and] at same
      obtain ⟨rfl, rfl⟩ := showsBody.inj (fun stmt _ => told legible stmt) showsOther same.2
      exact ⟨rfl, rfl⟩
  | struct | var | prototype =>
    cases second <;> cases alike
    exact unchanged rfl

/-- Every field of a struct has a line of its own. -/
theorem oneLine_fieldLines (legible : tables.Legible) {type : TypeId} {name : Name}
    {fields : List Field} (known : tables.types[type.index]? = some (.struct name fields))
    {rest : List Field} {position : Nat} (isRest : rest = fields.drop position)
    {lines : List String} (written : tables.fieldLines rest position = .ok lines) :
    ∀ line ∈ lines, OneLine line := by
  induction rest generalizing position lines with
  | nil =>
    obtain rfl := Except.ok.inj written
    exact List.forall_mem_nil _
  | cons field rest inductionHypothesis =>
    simp only [fieldLines, Outcome.bind_eq_ok_iff] at written
    obtain ⟨first, firstWritten, others, othersWritten, same⟩ := written
    obtain rfl := Except.ok.inj same
    have there : fields[position]? = some field := by
      rw [← List.head?_drop, ← isRest]
      rfl
    have isRest' : rest = fields.drop (position + 1) := by
      rw [← List.tail_drop, ← isRest, List.tail_cons]
    obtain ⟨_, _, opening⟩ :=
      exists_opening_of_declarationText legible (legible.fields known there) firstWritten
    exact List.forall_mem_cons.mpr
      ⟨oneLine_line 1 (opening.oneLine.append (show '\n' ∉ ";".toList by decide)),
        inductionHypothesis isRest' othersWritten⟩

/-- The lines of a declaration have no line breaks within. -/
theorem ShowsGlobal.oneLine (legible : tables.Legible) {global : Global} {lines : List String}
    (shows : tables.ShowsGlobal global lines) : ∀ line ∈ lines, OneLine line := by
  have mark : OneLine ";" := show '\n' ∉ ";".toList by decide
  have written := shows.written
  cases global with
  | struct type =>
    simp only [globalLines, Outcome.bind_eq_ok_iff] at written
    obtain ⟨spelling, spelled, fields, ofType, fieldTexts, fieldsWritten, same⟩ := written
    obtain rfl := Except.ok.inj same
    obtain ⟨phrase, isType⟩ := exists_typePhrase legible spelled
    obtain ⟨name, isStruct⟩ := fieldsOf_eq_ok_iff.mp ofType
    have ofSpelling : OneLine spelling := isType.not_mem rfl
    simp only [List.cons_append, List.forall_mem_cons, List.forall_mem_append]
    exact ⟨oneLine_line 0 (OneLine.append (show '\n' ∉ "struct ".toList by decide) ofSpelling),
      oneLine_opening 0, oneLine_fieldLines legible isStruct List.drop_zero.symm fieldsWritten,
      oneLine_line 0 (show '\n' ∉ "\x7d;".toList by decide), List.forall_mem_nil _⟩
  | var id =>
    obtain ⟨text, declared, same⟩ := Outcome.bind_eq_ok_iff.mp written
    obtain rfl := Except.ok.inj same
    exact List.forall_mem_singleton.mpr
      (oneLine_line 0 ((oneLine_declaration legible declared).append mark))
  | prototype function =>
    obtain ⟨text, signed, same⟩ := Outcome.bind_eq_ok_iff.mp written
    obtain rfl := Except.ok.inj same
    exact List.forall_mem_singleton.mpr
      (oneLine_line 0 ((oneLine_signature legible signed).append mark))
  | definition function body =>
    obtain ⟨text, inner, signed, showsBody, rfl⟩ := shows.definition
    simp only [List.forall_mem_cons]
    exact ⟨oneLine_line 0 (oneLine_signature legible signed), oneLine_opening 0,
      showsBody.oneLine fun stmt _ _ _ shows => shows.oneLine legible⟩

/-- Declarations are told by their lines one after the other. -/
theorem showsGlobals_inj (legible : tables.Legible) {first second : List Global}
    {lines others : List (List String)} (shows : List.Forall₂ tables.ShowsGlobal first lines)
    (otherShows : List.Forall₂ tables.ShowsGlobal second others)
    (distinctive : ∀ type, .struct type ∈ first → tables.Distinctive type)
    (same : lines.flatten = others.flatten) : first = second := by
  have begins {global : Global} {lines : List String} (shows : tables.ShowsGlobal global lines)
      (rest : List String) : lines ++ rest ≠ [] := by
    obtain ⟨head, more, -, rfl⟩ := shows.exists_head legible
    exact List.cons_ne_nil _ _
  induction shows generalizing second others with
  | nil =>
    cases otherShows with
    | nil => rfl
    | cons other => exact absurd same.symm (begins other _)
  | cons shows _ inductionHypothesis =>
    cases otherShows with
    | nil => exact absurd same (begins shows _)
    | cons other others =>
      obtain ⟨rfl, rest⟩ := shows.inj legible other
        (fun type isFirst => distinctive type (isFirst ▸ List.mem_cons_self)) same
      rw [inductionHypothesis others (fun type member =>
        distinctive type (List.mem_cons_of_mem _ member)) rest]

end Tables

end ShaderPipeline
