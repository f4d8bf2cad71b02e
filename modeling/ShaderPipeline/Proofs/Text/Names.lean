import ShaderPipeline.Proofs.Tables
import ShaderPipeline.Proofs.Text.Phrases

/-!
# Names and types as phrases

Tables are legible if every name is spelled as an identifier that is no keyword, and
different variables, functions and fields of a struct are spelled differently, as
are functions and types. In legible tables the spelling of every type is a phrase,
with a star for each pointer and the size of each array in brackets.
-/

namespace ShaderPipeline

open Phrase

/-! ## Words -/

/-- The words that have a meaning of their own where a name may stand. -/
def keywords : List String :=
  ["true", "false", "inf", "NaN", "return", "break", "continue", "discard", "texture"]

/-- Word characters, of which the first is no digit. -/
def IsWord (text : List Char) : Prop :=
  (∃ c rest, text = c :: rest ∧ c.isDigit = false) ∧ ∀ c ∈ text, wordChar c = true

/-- A text that can be the spelling of a name. -/
def IsName (text : String) : Prop :=
  (∃ c ∈ text.toList.head?, c.isDigit = false) ∧
    (∀ c ∈ text.toList, (c.isAlphanum || c = '_') = true) ∧ text ∉ keywords

instance (text : String) : Decidable (IsName text) :=
  @instDecidableAnd _ _ (Option.decidableExistsMem _) inferInstance

/-- What can be the spelling of a name can be read as a word. -/
theorem IsName.isWord {text : String} (isName : IsName text) : IsWord text.toList := by
  obtain ⟨⟨c, isFirst, noDigit⟩, chars, -⟩ := isName
  obtain ⟨rest, begins⟩ := List.head?_eq_some_iff.mp isFirst
  refine ⟨⟨c, rest, begins, noDigit⟩, fun c inside => ?_⟩
  have := chars c inside
  simp only [Bool.or_eq_true, decide_eq_true_eq] at this
  rcases this with alphanum | rfl
  · simp [wordChar, alphanum]
  · decide

/-- The spelling of a name is no keyword. -/
theorem IsName.ne_keyword {text keyword : String} (isName : IsName text)
    (member : keyword ∈ keywords) : text ≠ keyword := by
  rintro rfl
  exact isName.2.2 member

/-- The word that is spelled so, as a part of phrases. -/
def IsWord.word {text : List Char} (isWord : IsWord text) : Phrase.Word :=
  ⟨text, isWord.1, isWord.2⟩

/-- A word may go on with any characters of words. -/
theorem IsWord.append {front back : List Char} (isWord : IsWord front)
    (chars : ∀ c ∈ back, wordChar c = true) : IsWord (front ++ back) := by
  obtain ⟨⟨c, rest, rfl, noDigit⟩, inFront⟩ := isWord
  exact ⟨⟨c, rest ++ back, rfl, noDigit⟩, List.forall_mem_append.mpr ⟨inFront, chars⟩⟩

/-! ## Built-in types -/

/-- The digits of a number are characters of words. -/
theorem wordChar_toString (number : Nat) : ∀ c ∈ (toString number).toList, wordChar c = true := by
  rw [Nat.toString_eq_ofList_toDigits, String.toList_ofList]
  intro c inside
  have := Nat.isDigit_of_mem_toDigits (by decide) (by decide) inside
  simp [wordChar, Char.isAlphanum, this]

/-- The spelling of a scalar type is a word. -/
theorem Scalar.isWord_text (kind : Scalar) : IsWord kind.text.toList := by
  cases kind <;> exact ⟨⟨_, _, rfl, rfl⟩, by decide⟩

/-- So is the one that vectors of a scalar type begin with. -/
theorem Scalar.isWord_vectorText {kind : Scalar} {front : String}
    (named : kind.vectorText = .ok front) : IsWord front.toList := by
  cases kind <;> cases named <;> exact ⟨⟨_, _, rfl, rfl⟩, by decide⟩

namespace ImageKind

/-- The arrangement of an image is spelled with letters and digits, also in small letters. -/
theorem arrangementText_chars (kind : ImageKind) : ∀ c ∈ kind.arrangementText.toList,
    wordChar c = true ∧ wordChar c.toLower = true := by
  simp only [arrangementText, String.toList_append, List.forall_mem_append]
  refine ⟨⟨⟨?_, ?_⟩, ?_⟩, ?_⟩
  · cases kind.dimension <;> decide
  · cases kind.multisampled <;> decide
  · cases kind.arrayed <;> decide
  · cases kind.shadow <;> decide

/-- So is the spelling of a sampler type. -/
theorem isWord_imageText (kind : ImageKind) : IsWord kind.imageText.toList := by
  rw [imageText, String.toList_append]
  refine IsWord.append ?_ fun c inside => (kind.arrangementText_chars c inside).1
  cases kind.texel <;> cases kind.sampled <;> exact ⟨⟨_, _, rfl, rfl⟩, by decide⟩

/-- So is that of a texture type. -/
theorem isWord_textureText (kind : ImageKind) : IsWord kind.textureText.toList := by
  have start : IsWord "texture".toList := ⟨⟨_, _, rfl, rfl⟩, by decide⟩
  have small : kind.arrangementText.toLower.toList = kind.arrangementText.toList.map Char.toLower :=
    String.toList_map
  rw [textureText, String.toList_append, String.toList_append, small]
  refine (start.append ?_).append ?_
  · exact List.forall_mem_map.mpr fun c inside => (kind.arrangementText_chars c inside).2
  · cases kind.texel <;> decide

end ImageKind

/-! ## Legible tables -/

namespace Tables

/-- Every name is spelled as an identifier, and names that stand in the same place are spelled
differently. -/
structure Legible (tables : Tables) : Prop where
  vars : ∀ {index : Nat} {entry : Variable}, tables.vars[index]? = some entry →
    IsName (entry.name.spell index)
  functions : ∀ {index : Nat} {function : Function}, tables.functions[index]? = some function →
    IsName (function.name.spell index)
  structs : ∀ {index : Nat} {name : Name} {fields : List Field},
    tables.types[index]? = some (.struct name fields) → IsName (name.spell index)
  fields : ∀ {index : Nat} {name : Name} {fields : List Field} {position : Nat} {field : Field},
    tables.types[index]? = some (.struct name fields) → fields[position]? = some field →
      IsName (field.name.spell position)
  distinctVariables : ∀ {first second : Nat} {entry other : Variable},
    tables.vars[first]? = some entry → tables.vars[second]? = some other →
      entry.name.spell first = other.name.spell second → first = second
  distinctFunctions : ∀ {first second : Nat} {function other : Function},
    tables.functions[first]? = some function → tables.functions[second]? = some other →
      function.name.spell first = other.name.spell second → first = second
  distinctFields : ∀ {index first second : Nat} {name : Name} {fields : List Field}
    {field other : Field}, tables.types[index]? = some (.struct name fields) →
      fields[first]? = some field → fields[second]? = some other →
        field.name.spell first = other.name.spell second → first = second
  functionsNoTypes : ∀ {index : Nat} {function : Function} {type : TypeId},
    tables.functions[index]? = some function →
      tables.typeText type ≠ .ok (function.name.spell index)

variable {tables : Tables}

namespace Legible

variable (legible : tables.Legible)

include legible

/-- No two variables are written alike. -/
theorem variableText_inj {first second : VariableId} {name : String}
    (named : tables.variableText first = .ok name)
    (otherNamed : tables.variableText second = .ok name) : first = second := by
  obtain ⟨entry, known, spelled⟩ := Outcome.bind_eq_ok_iff.mp named
  obtain ⟨other, otherKnown, otherSpelled⟩ := Outcome.bind_eq_ok_iff.mp otherNamed
  exact congrArg VariableId.mk (legible.distinctVariables (variableAt_eq_ok_iff.mp known)
    (variableAt_eq_ok_iff.mp otherKnown)
    ((Except.ok.inj spelled).trans (Except.ok.inj otherSpelled).symm))

/-- No two functions are written alike. -/
theorem functionText_inj {first second : FunctionId} {name : String}
    (named : tables.functionText first = .ok name)
    (otherNamed : tables.functionText second = .ok name) : first = second := by
  obtain ⟨function, known, spelled⟩ := Outcome.bind_eq_ok_iff.mp named
  obtain ⟨other, otherKnown, otherSpelled⟩ := Outcome.bind_eq_ok_iff.mp otherNamed
  exact congrArg FunctionId.mk (legible.distinctFunctions (functionAt_eq_ok_iff.mp known)
    (functionAt_eq_ok_iff.mp otherKnown)
    ((Except.ok.inj spelled).trans (Except.ok.inj otherSpelled).symm))

/-- No type is written like a function. -/
theorem typeText_ne_functionText {type : TypeId} {function : FunctionId} {name : String}
    (spelled : tables.typeText type = .ok name) : tables.functionText function ≠ .ok name := by
  intro named
  obtain ⟨entry, known, same⟩ := Outcome.bind_eq_ok_iff.mp named
  obtain rfl := Except.ok.inj same
  exact legible.functionsNoTypes (functionAt_eq_ok_iff.mp known) spelled

/-- No two fields of a struct are written alike. -/
theorem fieldAt_inj {type : TypeId} {first second : Nat} {field other : Field}
    (selected : tables.fieldAt type first = .ok field)
    (otherSelected : tables.fieldAt type second = .ok other)
    (same : field.name.spell first = other.name.spell second) : first = second := by
  obtain ⟨fields, ofType, known⟩ := Outcome.bind_eq_ok_iff.mp selected
  obtain ⟨others, ofSame, otherKnown⟩ := Outcome.bind_eq_ok_iff.mp otherSelected
  obtain rfl : fields = others := Except.ok.inj (ofType.symm.trans ofSame)
  obtain ⟨name, isStruct⟩ := fieldsOf_eq_ok_iff.mp ofType
  exact legible.distinctFields isStruct (found_eq_ok_iff.mp known) (found_eq_ok_iff.mp otherKnown)
    same

end Legible

/-! ## Types -/

/-- The characters of the spellings of types. -/
def typeChar (c : Char) : Bool := wordChar c || c ∈ ['[', ']', '*']

/-- The spelling of a type: a phrase that can be gone on with, and no keyword. -/
structure TypePhrase (text : String) (phrase : Phrase .whole) : Prop where
  text_eq : phrase.text = text.toList
  isOpen : phrase.Open
  isNoKeyword : text ∉ keywords
  chars : ∀ c ∈ text.toList, typeChar c = true

namespace TypePhrase

variable {text : String} {phrase : Phrase .whole}

/-- The phrase of a type tells its spelling. -/
theorem text_inj {other : String} (first : TypePhrase text phrase)
    (second : TypePhrase other phrase) : text = other :=
  String.toList_inj.mp (first.text_eq.symm.trans second.text_eq)

/-- A type that reads as a single word is spelled like the word. -/
theorem eq_of_word {name : String} {isWord : IsWord name.toList}
    (isType : TypePhrase text (.word isWord.word .done)) : text = name := by
  rw [← String.toList_inj, ← isType.text_eq]
  simp [Phrase.text, IsWord.word]

/-- The spelling of a type is no keyword. -/
theorem ne_keyword (isType : TypePhrase text phrase) {keyword : String}
    (member : keyword ∈ keywords) : text ≠ keyword := by
  rintro rfl
  exact isType.isNoKeyword member

end TypePhrase

/-- A word that is no keyword can be the spelling of a type. -/
theorem exists_typePhrase_of_word {text : String} (isWord : IsWord text.toList)
    (isNoKeyword : text ∉ keywords) : ∃ phrase, TypePhrase text phrase :=
  ⟨.word isWord.word .done, by simp [Phrase.text, IsWord.word], trivial, isNoKeyword,
    fun c inside => by simp [typeChar, isWord.2 c inside]⟩

/-- A text with a character that no keyword has is no keyword. -/
theorem not_mem_keywords {text : String} {c : Char} (inside : c ∈ text.toList)
    (other : c ∉ keywords.flatMap String.toList) : text ∉ keywords :=
  fun keyword => other (List.mem_flatMap.mpr ⟨text, keyword, inside⟩)

/-- No keyword ends with a number. -/
theorem numbered_not_mem_keywords (front : String) (number : Nat) :
    front ++ toString number ∉ keywords := by
  obtain ⟨digit, rest, begins⟩ := List.exists_cons_of_ne_nil (@Nat.toDigits_ne_nil number 10)
  have inside : digit ∈ Nat.toDigits 10 number := by rw [begins]; exact List.mem_cons_self
  refine @not_mem_keywords _ digit ?_ fun keyword => ?_
  · rw [String.toList_append, Nat.toString_eq_ofList_toDigits, String.toList_ofList]
    exact List.mem_append_right _ inside
  · have letters : ∀ c ∈ keywords.flatMap String.toList, c.isDigit = false := by decide
    have := letters digit keyword
    rw [Nat.isDigit_of_mem_toDigits (by decide) (by decide) inside] at this
    cases this

/-- The spelling of a sampler type is no keyword. -/
theorem ImageKind.imageText_not_mem_keywords (kind : ImageKind) : kind.imageText ∉ keywords := by
  have letter : 'D' ∈ kind.arrangementText.toList ∨ 'C' ∈ kind.arrangementText.toList := by
    simp only [ImageKind.arrangementText, String.toList_append, List.mem_append]
    cases kind.dimension <;> simp
  rcases letter with inside | inside
  · refine @not_mem_keywords _ 'D' ?_ (by decide)
    rw [ImageKind.imageText, String.toList_append]
    exact List.mem_append_right _ inside
  · refine @not_mem_keywords _ 'C' ?_ (by decide)
    rw [ImageKind.imageText, String.toList_append]
    exact List.mem_append_right _ inside

/-- Nor is that of a texture type. -/
theorem ImageKind.textureText_not_mem_keywords (kind : ImageKind) :
    kind.textureText ∉ keywords := by
  refine @not_mem_keywords _ '>' ?_ (by decide)
  rw [ImageKind.textureText, String.toList_append]
  refine List.mem_append_right _ ?_
  cases kind.texel <;> decide

/-- The digits of a number read as a figure. -/
theorem exists_figure_toString (number : Nat) :
    ∃ figure : Phrase.Figure, figure.text = (toString number).toList := by
  rw [Nat.toString_eq_ofList_toDigits, String.toList_ofList]
  have isDigit : ∀ c ∈ Nat.toDigits 10 number, c.isDigit = true :=
    fun c inside => Nat.isDigit_of_mem_toDigits (by decide) (by decide) inside
  obtain ⟨digit, rest, begins⟩ := List.exists_cons_of_ne_nil (@Nat.toDigits_ne_nil number 10)
  exact ⟨⟨_, ⟨digit, rest, begins, isDigit digit (begins ▸ List.mem_cons_self)⟩,
    fun c inside => by simp [figureChar, isDigit c inside]⟩, rfl⟩

/-- The spelling of a type is a phrase. -/
theorem exists_typePhrase_within (legible : tables.Legible) {depth : Nat} {type : TypeId}
    {text : String} (spelled : tables.typeTextWithin depth type = .ok text) :
    ∃ phrase, TypePhrase text phrase := by
  induction depth generalizing type text with
  | zero => cases spelled
  | succ depth inductionHypothesis =>
    rw [typeTextWithin, Outcome.bind_eq_ok_iff] at spelled
    obtain ⟨entry, known, spelled⟩ := spelled
    cases entry with
    | scalar kind =>
      obtain rfl := Except.ok.inj spelled
      exact exists_typePhrase_of_word kind.isWord_text (by cases kind <;> decide)
    | vector component size =>
      obtain ⟨part, -, spelled⟩ := Outcome.bind_eq_ok_iff.mp spelled
      cases part with
      | scalar kind =>
        obtain ⟨front, named, same⟩ := Outcome.bind_eq_ok_iff.mp spelled
        obtain rfl := Except.ok.inj same
        refine exists_typePhrase_of_word ?_ (numbered_not_mem_keywords front size)
        rw [String.toList_append]
        exact (Scalar.isWord_vectorText named).append (wordChar_toString size)
      | _ => cases spelled
    | matrix column size =>
      obtain rfl := Except.ok.inj spelled
      refine exists_typePhrase_of_word ?_ (numbered_not_mem_keywords "mat" size)
      rw [String.toList_append]
      exact IsWord.append ⟨⟨_, _, rfl, rfl⟩, by decide⟩ (wordChar_toString size)
    | image kind =>
      obtain rfl := Except.ok.inj spelled
      exact exists_typePhrase_of_word kind.isWord_imageText
        (ImageKind.imageText_not_mem_keywords kind)
    | texture kind =>
      obtain rfl := Except.ok.inj spelled
      exact exists_typePhrase_of_word kind.isWord_textureText
        (ImageKind.textureText_not_mem_keywords kind)
    | sampler =>
      obtain rfl := Except.ok.inj spelled
      exact exists_typePhrase_of_word ⟨⟨_, _, rfl, rfl⟩, by decide⟩ (by decide)
    | struct name fields =>
      obtain rfl := Except.ok.inj spelled
      have isName := legible.structs (typeAt_eq_ok_iff.mp known)
      exact exists_typePhrase_of_word isName.isWord isName.2.2
    | array element size =>
      obtain ⟨inner, ofElement, same⟩ := Outcome.bind_eq_ok_iff.mp spelled
      obtain rfl := Except.ok.inj same
      obtain ⟨phrase, isPhrase⟩ := inductionHypothesis ofElement
      obtain ⟨figure, ofSize⟩ := exists_figure_toString size
      refine ⟨phrase.snoc (.index (.figure figure)), ?_, isPhrase.isOpen.snoc, ?_, ?_⟩
      · simp [text_snoc isPhrase.isOpen, isPhrase.text_eq, Phrase.text, ofSize]
      · exact @not_mem_keywords _ ']' (by simp) (by decide)
      · simp only [String.toList_append, List.forall_mem_append]
        exact ⟨⟨⟨isPhrase.chars, by decide⟩, fun c inside => by
          simp [typeChar, wordChar_toString size c inside]⟩, by decide⟩
    | pointer pointee =>
      obtain ⟨inner, ofPointee, same⟩ := Outcome.bind_eq_ok_iff.mp spelled
      obtain rfl := Except.ok.inj same
      obtain ⟨phrase, isPhrase⟩ := inductionHypothesis ofPointee
      refine ⟨phrase.snoc .star, ?_, isPhrase.isOpen.snoc, ?_, ?_⟩
      · simp [text_snoc isPhrase.isOpen, isPhrase.text_eq, Phrase.text]
      · exact @not_mem_keywords _ '*' (by simp) (by decide)
      · rw [String.toList_append, List.forall_mem_append]
        exact ⟨isPhrase.chars, by decide⟩
    | eliminated =>
      obtain rfl := Except.ok.inj spelled
      exact exists_typePhrase_of_word ⟨⟨_, _, rfl, rfl⟩, by decide⟩ (by decide)

/-- Every spelling of a type reads as a phrase, if names are spelled as identifiers. -/
theorem exists_typePhrase (legible : tables.Legible) {type : TypeId} {text : String}
    (spelled : tables.typeText type = .ok text) : ∃ phrase, TypePhrase text phrase :=
  exists_typePhrase_within legible spelled

end Tables

end ShaderPipeline
