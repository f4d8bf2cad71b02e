import ShaderPipeline.Proofs.Text.Constants
import ShaderPipeline.Proofs.Text.Names

/-!
# Names from declarations

A declaration is a name after its qualifiers, each followed by a blank, and before an
optional remark and an optional initial value. What stands before the name may hold
blanks and an equality sign itself, in the slot of a layout, but then it holds a
parenthesis as well, which no name does. So the name can be found, and in legible
tables a declaration tells its variable and a signature its function.
-/

namespace ShaderPipeline

open Phrase

/-! ## Finding the name -/

/-- The piece in front of a remark or an initial value, or the last one. -/
def nameIn : List (List Char) → List Char
  | [] => []
  | [name] => name
  | name :: mark :: rest =>
    if mark = ['/', '*'] ∨ mark = ['='] ∧ '(' ∉ name then name else nameIn (mark :: rest)

/-- The name that a text declares. -/
def declaredName (text : List Char) : List Char := nameIn (text.splitOn ' ')

/-- A text whose first character is one of a word. -/
def Begins (text : List Char) : Prop := ∃ c rest, text = c :: rest ∧ wordChar c = true

/-- A word begins with a character of words. -/
theorem IsWord.begins {text : List Char} (isWord : IsWord text) : Begins text := by
  obtain ⟨⟨c, rest, begins, -⟩, chars⟩ := isWord
  exact ⟨c, rest, begins, chars c (begins ▸ List.mem_cons_self)⟩

/-- How a text begins does not change with what is put behind it. -/
theorem Begins.append {text : List Char} (begins : Begins text) (rest : List Char) :
    Begins (text ++ rest) := by
  obtain ⟨c, others, rfl, inWord⟩ := begins
  exact ⟨c, others ++ rest, rfl, inWord⟩

/-- The first piece of a text begins like the text. -/
theorem Begins.exists_splitOn {text : List Char} (begins : Begins text) :
    ∃ piece pieces, text.splitOn ' ' = piece :: pieces ∧ Begins piece := by
  obtain ⟨c, rest, rfl, inWord⟩ := begins
  have noBlank : (c == ' ') = false := by
    rw [beq_eq_false_iff_ne]
    rintro rfl
    cases inWord
  obtain ⟨piece, pieces, split⟩ := List.exists_cons_of_ne_nil (@List.splitOn_ne_nil _ _ ' ' rest)
  exact ⟨c :: piece, pieces, by simp [List.splitOn_cons_eq_if_modifyHead, noBlank, split],
    c, piece, rfl, inWord⟩

/-- A piece is no name if the next one begins a word. -/
theorem nameIn_cons {rest : List Char} (begins : Begins rest) (piece : List Char) :
    nameIn (piece :: rest.splitOn ' ') = nameIn (rest.splitOn ' ') := by
  obtain ⟨next, pieces, split, c, others, rfl, inWord⟩ := begins.exists_splitOn
  have noMark : ¬((c :: others) = ['/', '*'] ∨ (c :: others) = ['='] ∧ '(' ∉ piece) := by
    rintro (same | ⟨same, -⟩) <;> obtain rfl := (List.cons.inj same).1 <;> cases inWord
  rw [split, nameIn, if_neg noMark]

/-- A first piece without blanks is not part of the declared name. -/
theorem declaredName_cons {piece rest : List Char} (begins : Begins rest) (solid : ' ' ∉ piece) :
    declaredName (piece ++ ' ' :: rest) = declaredName rest := by
  rw [declaredName, List.splitOn_append_cons_self_of_not_mem solid, nameIn_cons begins]
  rfl

/-! ## Declarations -/

/-- The name of a slot of a layout. -/
def slotKinds : List String := ["location", "binding"]

/-- What stands before a name: a phrase without blanks and parentheses, or a layout. -/
inductive Qualifier : List Char → Prop
  | phrase {phrase : Phrase .whole} (begins : Begins phrase.text)
      (solid : ∀ c ∈ phrase.text, c ∉ [' ', '('])
      (noKeyword : String.ofList phrase.text ∉ keywords) : Qualifier phrase.text
  | layout {kind : String} (known : kind ∈ slotKinds) (slot : Nat) :
      Qualifier ("layout(" ++ kind ++ " = " ++ toString slot ++ ")").toList

/-- What stands after a name: nothing, or a remark or an initial value without parentheses. -/
inductive Tail : List Char → Prop
  | nothing : Tail []
  | remark {rest : List Char} (closed : ∀ c ∈ rest, c ∉ [')', '\n']) :
      Tail (' ' :: '/' :: '*' :: ' ' :: rest)
  | initial {rest : List Char} (closed : ∀ c ∈ rest, c ∉ [')', '\n']) :
      Tail (' ' :: '=' :: ' ' :: rest)

/-- The declaration of a name: the type of a reference is marked. -/
inductive Declaration (name : String) : List Char → Prop
  | last {tail : List Char} (isName : IsName name) (isTail : Tail tail) :
      Declaration name (name.toList ++ tail)
  | qualified {first rest : List Char} (qualifier : Qualifier first)
      (declaration : Declaration name rest) : Declaration name (first ++ ' ' :: rest)
  | reference {type rest : List Char} (begins : Begins type) (solid : ∀ c ∈ type, c ∉ [' ', '\n'])
      (declaration : Declaration name rest) : Declaration name (type ++ '&' :: ' ' :: rest)

/-- What stands before a name begins like a word. -/
theorem Qualifier.begins {text : List Char} (qualifier : Qualifier text) : Begins text := by
  cases qualifier with
  | phrase begins => exact begins
  | @layout kind known slot =>
    exact ⟨'l', ("ayout(" ++ kind ++ " = " ++ toString slot ++ ")").toList, by simp, rfl⟩

/-- What stands before a name has no line break. -/
theorem Qualifier.newline_not_mem {text : List Char} (qualifier : Qualifier text) :
    '\n' ∉ text := by
  cases qualifier with
  | @phrase phrase => exact phrase.newline_not_mem
  | @layout kind known slot =>
    have noKind : '\n' ∉ kind.toList := by
      revert kind
      decide
    have noSlot : '\n' ∉ (toString slot).toList := fun inside =>
      absurd (wordChar_toString slot '\n' inside) (by decide)
    simp only [String.toList_append, List.mem_append, not_or]
    exact ⟨⟨⟨⟨by decide, noKind⟩, by decide⟩, noSlot⟩, by decide⟩

/-- A name has no characters but letters, digits and underscores. -/
theorem IsName.not_mem {name : String} (isName : IsName name) {c : Char}
    (other : (c.isAlphanum || c = '_') = false) : c ∉ name.toList := by
  intro inside
  rw [isName.2.1 c inside] at other
  cases other

namespace Declaration

variable {name : String} {text : List Char}

/-- A declaration begins like a word. -/
theorem begins (declaration : Declaration name text) : Begins text := by
  cases declaration with
  | last isName => exact isName.isWord.begins.append _
  | qualified qualifier => exact qualifier.begins.append _
  | reference begins => exact begins.append _

/-- The name of a declaration can be found, also if a value is assigned to it. -/
theorem declaredName_append (declaration : Declaration name text) {rest : List Char}
    (follows : rest = [] ∨ ∃ value, rest = ' ' :: '=' :: ' ' :: value) :
    declaredName (text ++ rest) = name.toList := by
  induction declaration with
  | @last tail isName isTail =>
    have solid : ' ' ∉ name.toList := isName.not_mem rfl
    have noGroup : '(' ∉ name.toList := isName.not_mem rfl
    -- What follows the name is nothing, or its first piece is a mark.
    have pieces : tail ++ rest = [] ∨ ∃ mark others, tail ++ rest = ' ' :: (mark ++ ' ' :: others) ∧
        ' ' ∉ mark ∧ (mark = ['/', '*'] ∨ mark = ['=']) := by
      cases isTail with
      | nothing =>
        rcases follows with rfl | ⟨value, rfl⟩
        · exact .inl rfl
        · exact .inr ⟨['='], _, rfl, by decide, .inr rfl⟩
      | remark => exact .inr ⟨['/', '*'], _, rfl, by decide, .inl rfl⟩
      | initial => exact .inr ⟨['='], _, rfl, by decide, .inr rfl⟩
    rw [List.append_assoc, declaredName]
    rcases pieces with none | ⟨mark, others, same, solidMark, known⟩
    · rw [none, List.append_nil, List.splitOn_eq_singleton solid, nameIn]
    · rw [same, List.splitOn_append_cons_self_of_not_mem solid,
        List.splitOn_append_cons_self_of_not_mem solidMark, nameIn,
        if_pos (known.imp_right fun assigned => ⟨assigned, noGroup⟩)]
  | @qualified first others qualifier declaration inductionHypothesis =>
    have begins := declaration.begins.append rest
    rw [← inductionHypothesis, List.append_assoc, List.cons_append]
    cases qualifier with
    | phrase _ solid =>
      exact declaredName_cons begins fun inside => solid ' ' inside (by decide)
    | @layout kind known slot =>
      have solidSlot : ' ' ∉ (toString slot ++ ")").toList := by
        rw [String.toList_append, List.mem_append, not_or]
        exact ⟨fun inside => absurd (wordChar_toString slot ' ' inside) (by decide), by decide⟩
      have solidFront : ' ' ∉ ("layout(" ++ kind).toList := by
        revert kind
        decide
      have noMark : ¬((toString slot ++ ")").toList = ['/', '*'] ∨
          (toString slot ++ ")").toList = ['='] ∧ '(' ∉ ['=']) := by
        have closes : ')' ∈ (toString slot ++ ")").toList := by simp
        rintro (same | ⟨same, -⟩) <;> exact absurd (same ▸ closes) (by decide)
      have split : (("layout(" ++ kind ++ " = " ++ toString slot ++ ")").toList ++
          ' ' :: (others ++ rest)) = ("layout(" ++ kind).toList ++ ' ' :: (['='] ++ ' ' ::
            ((toString slot ++ ")").toList ++ ' ' :: (others ++ rest))) := by simp
      rw [split, declaredName, List.splitOn_append_cons_self_of_not_mem solidFront,
        List.splitOn_append_cons_self_of_not_mem (by decide),
        List.splitOn_append_cons_self_of_not_mem solidSlot, nameIn,
        if_neg (by simp), nameIn, if_neg noMark, nameIn_cons begins]
      rfl
  | @reference type others begins solid declaration inductionHypothesis =>
    have solidMarked : ' ' ∉ type ++ ['&'] := by
      rw [List.mem_append, not_or]
      exact ⟨fun inside => solid ' ' inside (by decide), by decide⟩
    rw [← inductionHypothesis, List.append_assoc]
    have := declaredName_cons (declaration.begins.append rest) solidMarked
    simpa using this

/-- A declaration does not end with a parenthesis. -/
theorem getLast?_ne (declaration : Declaration name text) : text.getLast? ≠ some ')' := by
  induction declaration with
  | @last tail isName isTail =>
    have closed : ')' ∉ name.toList ++ tail := by
      rw [List.mem_append, not_or]
      refine ⟨isName.not_mem rfl, ?_⟩
      cases isTail with
      | nothing => simp
      | remark closed | initial closed =>
        have noGroup : ')' ∉ _ := fun inside => closed ')' inside (by decide)
        simp [noGroup]
    exact fun isLast => closed (List.mem_of_getLast? isLast)
  | qualified _ declaration inductionHypothesis =>
    obtain ⟨c, others, rfl, -⟩ := declaration.begins
    simpa [List.getLast?_append, List.getLast?_cons_cons] using inductionHypothesis
  | reference _ _ declaration inductionHypothesis =>
    obtain ⟨c, others, rfl, -⟩ := declaration.begins
    simpa [List.getLast?_append, List.getLast?_cons_cons] using inductionHypothesis

/-- A declaration is on one line. -/
theorem newline_not_mem (declaration : Declaration name text) : '\n' ∉ text := by
  induction declaration with
  | last isName isTail =>
    rw [List.mem_append, not_or]
    refine ⟨isName.not_mem rfl, ?_⟩
    cases isTail with
    | nothing => simp
    | remark closed | initial closed =>
      have noNewline : '\n' ∉ _ := fun inside => closed '\n' inside (by decide)
      simp [noNewline]
  | qualified qualifier _ inductionHypothesis =>
    simp [qualifier.newline_not_mem, inductionHypothesis]
  | reference _ solid _ inductionHypothesis =>
    have noNewline : '\n' ∉ _ := fun inside => solid '\n' inside (by decide)
    simp [noNewline, inductionHypothesis]

/-- A declaration goes on with an initial value. -/
theorem append_initial (declaration : Declaration name text) {value : List Char}
    (closed : ∀ c ∈ value, c ∉ [')', '\n']) :
    Declaration name (text ++ ' ' :: '=' :: ' ' :: value) := by
  induction declaration with
  | last isName isTail =>
    rw [List.append_assoc]
    refine .last isName ?_
    cases isTail with
    | nothing => exact .initial closed
    | remark others => exact .remark (List.forall_mem_append.mpr ⟨others, by simpa using closed⟩)
    | initial others => exact .initial (List.forall_mem_append.mpr ⟨others, by simpa using closed⟩)
  | qualified qualifier _ inductionHypothesis =>
    rw [List.append_assoc]
    exact .qualified qualifier inductionHypothesis
  | reference begins solid _ inductionHypothesis =>
    rw [List.append_assoc]
    exact .reference begins solid inductionHypothesis

end Declaration

/-- No phrase has a single word and a blank where an argument is. -/
theorem not_argument (name arg : Phrase.Word) {after others : List Char} {phrase : Phrase .whole}
    (ends : Ends others) :
    name.text ++ '(' :: (arg.text ++ ' ' :: after) ≠ phrase.text ++ others := by
  intro same
  have opens : ∀ c ∈ ('(' :: (arg.text ++ ' ' :: after)).head?, wordChar c = false := by
    rintro c ⟨⟩
    rfl
  have sameLead : (Phrase.word name .done).lead = phrase.lead :=
    @lead_eq (.word name .done) phrase _ _ (by simpa [Phrase.text] using same)
  cases phrase <;> try cases sameLead
  case word other steps =>
    rw [Phrase.text, List.append_assoc] at same
    obtain ⟨-, afterName⟩ := run_append_inj name.chars other.chars opens (steps_wordChar ends) same
    cases steps with
    | done =>
      rw [Phrase.text, List.nil_append] at afterName
      exact absurd (ends '(' (by rw [← afterName]; rfl)) (by decide)
    | next step steps =>
      cases step with
      | field | index | star => exact absurd (List.cons.inj afterName).1 (by decide)
      | apply args =>
        simp only [Phrase.text, List.cons_append, List.append_assoc, List.cons.injEq, true_and,
          List.nil_append] at afterName
        cases args with
        | noArgs =>
          obtain ⟨c, rest, begins, -⟩ := arg.first
          have inWord := arg.chars c (begins ▸ List.mem_cons_self)
          rw [begins, Phrase.text, List.nil_append] at afterName
          obtain rfl := (List.cons.inj afterName).1
          cases inWord
        | someArgs first more =>
          have blank : Ends (' ' :: after) := .cons (by decide)
          rw [Phrase.text, List.append_assoc] at afterName
          obtain ⟨-, afterArg⟩ := @text_append_inj _ (.word arg .done) first _ _ blank
            (more_ends ⟨_, rfl⟩) (by simpa [Phrase.text] using afterName)
          cases more with
          | lastArg => exact absurd (List.cons.inj afterArg).1 (by decide)
          | nextArg => exact absurd (List.cons.inj afterArg).1 (by decide)

/-- If a qualifier reads like a phrase, the phrase is no keyword, and what follows is the rest of
the declaration. -/
theorem Qualifier.follows {first rest others : List Char} {phrase : Phrase .whole}
    (qualifier : Qualifier first) (ends : Ends others)
    (same : first ++ ' ' :: rest = phrase.text ++ others) :
    others = ' ' :: rest ∧ String.ofList phrase.text ∉ keywords := by
  have blank {rest : List Char} : Ends (' ' :: rest) := .cons (by decide)
  cases qualifier with
  | phrase _ _ noKeyword =>
    obtain ⟨rfl, rfl⟩ := text_append_inj _ phrase blank ends same
    exact ⟨rfl, noKeyword⟩
  | @layout kind known slot =>
    -- A layout reads like the word in front of its parenthesis, and then the argument there would
    -- have to end where the blank is.
    exfalso
    have isWord : IsWord "layout".toList := ⟨⟨_, _, rfl, rfl⟩, by decide⟩
    have isKind : IsWord kind.toList := by
      simp only [slotKinds, List.mem_cons, List.not_mem_nil, or_false] at known
      rcases known with rfl | rfl <;> exact ⟨⟨_, _, rfl, rfl⟩, by decide⟩
    obtain ⟨after, split⟩ : ∃ after, ("layout(" ++ kind ++ " = " ++ toString slot ++ ")").toList ++
        ' ' :: rest = "layout".toList ++ '(' :: (kind.toList ++ ' ' :: after) := by
      exact ⟨"= ".toList ++ (toString slot ++ ")").toList ++ ' ' :: rest, by simp⟩
    rw [split] at same
    exact not_argument isWord.word isKind.word ends same

/-! ## Declarations in tables -/

/-- A word that is no keyword is a qualifier. -/
theorem Qualifier.of_word {text : String} (isWord : IsWord text.toList)
    (noKeyword : text ∉ keywords) : Qualifier text.toList := by
  have spelled : (Phrase.word isWord.word .done).text = text.toList := by
    simp [Phrase.text, IsWord.word]
  rw [← spelled]
  refine .phrase (by rw [spelled]; exact isWord.begins) (fun c inside => ?_) ?_
  · rw [spelled] at inside
    intro other
    simp only [List.mem_cons, List.not_mem_nil, or_false] at other
    rcases other with rfl | rfl <;> exact absurd (isWord.2 _ inside) (by decide)
  · rwa [spelled, String.ofList_toList]

/-- The text of a decoration may stand before a name. -/
theorem Decoration.qualifier (decoration : Decoration) : Qualifier decoration.text.toList := by
  cases decoration with
  | location slot =>
    rw [show (location slot).text = "layout(location = " ++ toString slot ++ ")" from rfl,
      show "layout(location = " = "layout(" ++ "location" ++ " = " by decide]
    exact .layout (by decide) slot
  | binding slot =>
    rw [show (binding slot).text = "layout(binding = " ++ toString slot ++ ")" from rfl,
      show "layout(binding = " = "layout(" ++ "binding" ++ " = " by decide]
    exact .layout (by decide) slot
  | _ => exact .of_word ⟨⟨_, _, rfl, rfl⟩, by decide⟩ (by decide)

/-- So may the text of a precision. -/
theorem Precision.qualifier {precision : Precision} (given : precision ≠ .notApplicable) :
    Qualifier precision.text.toList := by
  cases precision with
  | notApplicable => exact absurd rfl given
  | _ => exact .of_word ⟨⟨_, _, rfl, rfl⟩, by decide⟩ (by decide)

/-- So may the text of an address space. -/
theorem AddressSpace.qualifier (space : AddressSpace) : Qualifier space.text.toList := by
  cases space <;> exact .of_word ⟨⟨_, _, rfl, rfl⟩, by decide⟩ (by decide)

namespace Tables.TypePhrase

variable {text : String} {phrase : Phrase .whole}

/-- The spelling of a type has no characters but those of types. -/
theorem not_mem (isType : TypePhrase text phrase) {c : Char} (other : typeChar c = false) :
    c ∉ text.toList := by
  intro inside
  rw [isType.chars c inside] at other
  cases other

/-- The spelling of a type begins like a word. -/
theorem begins (isType : TypePhrase text phrase) : Begins text.toList := by
  obtain ⟨spelled, isOpen, -, chars⟩ := isType
  cases phrase with
  | sign | figure => cases isOpen
  | group => exact absurd (chars '(' (by rw [← spelled]; exact List.mem_cons_self)) (by decide)
  | word name steps =>
    obtain ⟨c, rest, begins, -⟩ := name.first
    exact ⟨c, rest ++ steps.text, by rw [← spelled, Phrase.text, begins, List.cons_append],
      name.chars c (begins ▸ List.mem_cons_self)⟩

/-- The spelling of a type may stand before a name. -/
theorem qualifier (isType : TypePhrase text phrase) : Qualifier text.toList := by
  have begins := isType.begins
  have noKeyword := isType.isNoKeyword
  have solid : ∀ c ∈ text.toList, c ∉ [' ', '('] := by
    intro c inside other
    simp only [List.mem_cons, List.not_mem_nil, or_false] at other
    rcases other with rfl | rfl <;> exact isType.not_mem (by decide) inside
  rw [← @String.ofList_toList text] at noKeyword
  rw [← isType.text_eq] at begins solid noKeyword ⊢
  exact .phrase begins solid noKeyword

end Tables.TypePhrase

/-- Qualifiers, a name and a remark that are separated by blanks are a declaration. -/
theorem declaration_intercalate {name : String} (isName : IsName name) {qualifiers : List String}
    (each : ∀ qualifier ∈ qualifiers, Qualifier qualifier.toList) (builtIn : Option BuiltIn) :
    Declaration name (" ".intercalate (qualifiers ++
      name :: (builtIn.map fun builtIn => "/* " ++ builtIn.text ++ " */").toList)).toList := by
  induction qualifiers with
  | nil =>
    cases builtIn with
    | none => simpa using Declaration.last isName .nothing
    | some builtIn =>
      have closed : ∀ c ∈ (builtIn.text ++ " */").toList, c ∉ [')', '\n'] := by
        cases builtIn <;> decide
      simpa using Declaration.last isName (.remark closed)
  | cons qualifier qualifiers inductionHypothesis =>
    rw [List.forall_mem_cons] at each
    have rest := Declaration.qualified each.1 (inductionHypothesis each.2)
    rw [List.cons_append, String.intercalate_cons_of_ne_nil (by simp)]
    simpa using rest

namespace Tables

variable {tables : Tables}

/-- A declaration with its first qualifier. -/
structure Opening (name : String) (text : List Char) (first rest : List Char) : Prop where
  text_eq : text = first ++ ' ' :: rest
  qualifier : Qualifier first
  declaration : Declaration name rest

/-- A text with a first qualifier declares the name that it opens. -/
theorem Opening.declared {name : String} {text first rest : List Char}
    (opening : Opening name text first rest) : Declaration name text := by
  rw [opening.text_eq]
  exact .qualified opening.qualifier opening.declaration

/-- The text of a declaration begins with a qualifier: a decoration, the precision or the type. -/
theorem exists_opening_of_declarationText (legible : tables.Legible) {spelling : String}
    (isName : IsName spelling) {type : TypeId} {precision : Precision}
    {decorations : List Decoration} {builtIn : Option BuiltIn} {text : String}
    (written : tables.declarationText spelling type precision decorations builtIn = .ok text) :
    ∃ first rest, Opening spelling text.toList first rest := by
  obtain ⟨typeSpelling, spelled, same⟩ := Outcome.bind_eq_ok_iff.mp written
  obtain rfl := Except.ok.inj same
  obtain ⟨phrase, isType⟩ := exists_typePhrase legible spelled
  -- The qualifiers are the decorations, the precision if there is one, and the type.
  obtain ⟨qualifiers, isQualifiers⟩ : ∃ qualifiers, qualifiers = decorations.map Decoration.text ++
      (if precision = .notApplicable then [] else [precision.text]) ++ [typeSpelling] := ⟨_, rfl⟩
  have each : ∀ qualifier ∈ qualifiers, Qualifier qualifier.toList := by
    rw [isQualifiers]
    simp only [List.forall_mem_append, List.forall_mem_map, List.forall_mem_singleton]
    refine ⟨⟨fun decoration _ => decoration.qualifier, ?_⟩, isType.qualifier⟩
    split
    case isTrue => simp
    case isFalse given => simpa using Precision.qualifier given
  have split : decorations.map Decoration.text ++
      (if precision = .notApplicable then [] else [precision.text]) ++ [typeSpelling, spelling] ++
        (builtIn.map fun builtIn => "/* " ++ builtIn.text ++ " */").toList = qualifiers ++
          spelling :: (builtIn.map fun builtIn => "/* " ++ builtIn.text ++ " */").toList := by
    simp [isQualifiers]
  rw [split]
  cases qualifiers with
  | nil => simp at isQualifiers
  | cons first others =>
    rw [List.forall_mem_cons] at each
    refine ⟨first.toList, _, ?_, each.1, declaration_intercalate isName each.2 builtIn⟩
    rw [List.cons_append, String.intercalate_cons_of_ne_nil (by simp)]
    simp

/-- An initial value stands behind the declaration of its variable. -/
theorem Opening.initialized {name : String} {text first rest : List Char}
    (opening : Opening name text first rest) (value : Constant) :
    Opening name (text ++ " = ".toList ++ value.text.toList) first
      (rest ++ ' ' :: '=' :: ' ' :: value.text.toList) where
  text_eq := by simp [opening.text_eq]
  qualifier := opening.qualifier
  declaration := opening.declaration.append_initial fun c inside other => by
    simp only [List.mem_cons, List.not_mem_nil, or_false] at other
    rcases other with rfl | rfl <;> exact value.not_mem_text rfl inside

/-- It still does with an initial value behind it. -/
theorem Opening.exists_initialized {name declaration text : String} {first rest : List Char}
    (opening : Opening name declaration.toList first rest) {initial : Option Constant}
    (same : (match initial with
      | some value => declaration ++ " = " ++ value.text
      | none => declaration) = text) : ∃ first rest, Opening name text.toList first rest := by
  subst same
  cases initial with
  | some value => exact ⟨_, _, by simpa using opening.initialized value⟩
  | none => exact ⟨_, _, opening⟩

/-- The declaration of a variable declares its name. -/
theorem exists_opening (legible : tables.Legible) {id : VariableId} {text : String}
    (written : tables.variableDeclarationText id = .ok text) : ∃ name first rest,
      tables.variableText id = .ok name ∧ Opening name text.toList first rest := by
  simp only [variableDeclarationText, Outcome.bind_eq_ok_iff] at written
  obtain ⟨entry, known, plain, plainWritten, typeSpelling, spelled, same⟩ := written
  have isName := legible.vars (variableAt_eq_ok_iff.mp known)
  have named : tables.variableText id = .ok (entry.name.spell id.index) := by
    simp only [variableText, known, Outcome.ok_bind]
    rfl
  suffices ∃ first rest, Opening (entry.name.spell id.index) text.toList first rest by
    obtain ⟨first, rest, opening⟩ := this
    exact ⟨_, _, _, named, opening⟩
  obtain ⟨first, rest, opening⟩ := exists_opening_of_declarationText legible isName plainWritten
  cases isReference : entry.reference with
  | some space =>
    obtain ⟨phrase, isType⟩ := exists_typePhrase legible spelled
    simp only [isReference] at same
    have solid : ∀ c ∈ typeSpelling.toList, c ∉ [' ', '\n'] := by
      intro c inside other
      simp only [List.mem_cons, List.not_mem_nil, or_false] at other
      rcases other with rfl | rfl <;> exact isType.not_mem rfl inside
    refine Opening.exists_initialized ⟨?_, space.qualifier, .reference isType.begins solid
      (.last isName .nothing)⟩ (Except.ok.inj same)
    simp
  | none =>
    cases isConst : entry.isConst with
    | true =>
      have isWord : IsWord "const".toList := ⟨⟨_, _, rfl, rfl⟩, by decide⟩
      simp only [isReference, isConst, if_true] at same
      refine Opening.exists_initialized ⟨?_, .of_word isWord (by decide), opening.declared⟩
        (Except.ok.inj same)
      simp
    | false =>
      simp only [isReference, isConst, Bool.false_eq_true, if_false] at same
      exact opening.exists_initialized (Except.ok.inj same)

/-- A declaration tells its variable, also if a value is assigned to it. -/
theorem Legible.declared_inj (legible : tables.Legible) {first second : VariableId}
    {text other : String} (written : tables.variableDeclarationText first = .ok text)
    (otherWritten : tables.variableDeclarationText second = .ok other) {rest others : List Char}
    (follows : rest = [] ∨ ∃ value, rest = ' ' :: '=' :: ' ' :: value)
    (otherFollows : others = [] ∨ ∃ value, others = ' ' :: '=' :: ' ' :: value)
    (same : text.toList ++ rest = other.toList ++ others) : first = second := by
  obtain ⟨name, _, _, named, opening⟩ := exists_opening legible written
  obtain ⟨otherName, _, _, otherNamed, otherOpening⟩ := exists_opening legible otherWritten
  have sameName := congrArg declaredName same
  rw [opening.declared.declaredName_append follows,
    otherOpening.declared.declaredName_append otherFollows] at sameName
  obtain rfl := String.toList_inj.mp sameName
  exact legible.variableText_inj named otherNamed

/-- What stands before the parameters of a function declares its name. -/
theorem exists_signature (legible : tables.Legible) {id : FunctionId} {text : String}
    (written : tables.signatureText id = .ok text) : ∃ name front params,
      tables.functionText id = .ok name ∧ Declaration name front ∧ '(' ∉ front ∧
        text.toList = front ++ '(' :: (params ++ [')']) := by
  simp only [signatureText, Outcome.bind_eq_ok_iff] at written
  obtain ⟨function, known, returned, spelled, params, -, same⟩ := written
  obtain rfl := Except.ok.inj same
  have isName := legible.functions (functionAt_eq_ok_iff.mp known)
  have named : tables.functionText id = .ok (function.name.spell id.index) := by
    simp only [functionText, known, Outcome.ok_bind]
    rfl
  obtain ⟨phrase, isType⟩ := exists_typePhrase legible spelled
  have unqualified : Declaration (function.name.spell id.index)
      (returned.toList ++ ' ' :: (function.name.spell id.index).toList) := by
    simpa using Declaration.qualified isType.qualifier (.last isName .nothing)
  have noGroup : '(' ∉ returned.toList ++ ' ' :: (function.name.spell id.index).toList := by
    have noType : '(' ∉ returned.toList := isType.not_mem rfl
    have noName : '(' ∉ (function.name.spell id.index).toList := isName.not_mem rfl
    simp [noType, noName]
  split
  case isTrue =>
    exact ⟨_, _, (", ".intercalate params).toList, named, unqualified, noGroup, by simp⟩
  case isFalse given =>
    refine ⟨_, _, (", ".intercalate params).toList, named,
      .qualified (Precision.qualifier given) unqualified, ?_, by simp⟩
    have noPrecision : '(' ∉ function.returnPrecision.text.toList := by
      cases function.returnPrecision <;> decide
    rw [List.mem_append, List.mem_cons, not_or, not_or]
    exact ⟨noPrecision, by decide, noGroup⟩

/-- A signature tells its function. -/
theorem Legible.signature_inj (legible : tables.Legible) {first second : FunctionId} {text : String}
    (written : tables.signatureText first = .ok text)
    (otherWritten : tables.signatureText second = .ok text) : first = second := by
  obtain ⟨name, front, params, named, declaration, noGroup, split⟩ :=
    exists_signature legible written
  obtain ⟨otherName, otherFront, otherParams, otherNamed, otherDeclaration, otherNoGroup,
    otherSplit⟩ := exists_signature legible otherWritten
  have ungrouped {front : List Char} (noGroup : '(' ∉ front) : ∀ c ∈ front, (c != '(') = true := by
    intro c inside
    rw [bne_iff_ne]
    rintro rfl
    exact noGroup inside
  obtain ⟨rfl, -⟩ := run_append_inj (ungrouped noGroup) (ungrouped otherNoGroup) (by simp)
    (by simp) (split.symm.trans otherSplit)
  have found := declaration.declaredName_append (.inl rfl)
  rw [otherDeclaration.declaredName_append (.inl rfl)] at found
  obtain rfl := String.toList_inj.mp found
  exact legible.functionText_inj named otherNamed

end Tables

end ShaderPipeline
