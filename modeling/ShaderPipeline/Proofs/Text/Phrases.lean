import Mathlib.Data.List.TakeWhile
import ShaderPipeline.Text.Program

/-!
# Phrases

A phrase is what can be seen in the text of an expression without knowing any name:
operator signs, then a word, a figure or a binary operation in parentheses, then
steps such as field accesses and argument lists. A text is that of at most one phrase,
whatever follows it. So what two expressions with the same text may differ in is how
they were made into a phrase.
-/

namespace ShaderPipeline

/-- A property of the characters of a text is decided at these characters only. The instance
for properties of all characters would try every one there is. -/
instance decidableForallMemChar (chars : List Char) (p : Char → Prop) [DecidablePred p] :
    Decidable (∀ c ∈ chars, p c) :=
  List.decidableBAll p chars

/-! ## Words, figures and signs -/

namespace Phrase

/-- The characters of names and of the spellings of types without arrays and pointers. -/
def wordChar (c : Char) : Bool := c.isAlphanum || c ∈ ['_', '<', '>']

/-- The characters of numbers. -/
def figureChar (c : Char) : Bool := c.isDigit || c ∈ ['.', 'e', '-', 'u']

/-- Characters of words, of which a digit is not the first. -/
@[ext] structure Word where
  text : List Char
  first : ∃ c rest, text = c :: rest ∧ c.isDigit = false
  chars : ∀ c ∈ text, wordChar c = true

/-- Characters of numbers, of which a digit is the first. -/
@[ext] structure Figure where
  text : List Char
  first : ∃ c rest, text = c :: rest ∧ c.isDigit = true
  chars : ∀ c ∈ text, figureChar c = true

/-- What stands in front of an operand. -/
inductive Sign where
  | op (op : UnaryOp)
  | address
deriving DecidableEq

/-- The character of a sign. -/
def Sign.char : Sign → Char
  | .op .negate => '-'
  | .op .logicalNot => '!'
  | .op .bitwiseNot => '~'
  | .address => '&'

/-- The character of a sign tells the sign. -/
theorem Sign.char_inj {first second : Sign} (same : first.char = second.char) : first = second := by
  rcases first with ⟨_ | _ | _⟩ | _ <;> rcases second with ⟨_ | _ | _⟩ | _ <;>
    first | rfl | exact absurd same (by decide)

/-- The kinds of parts of a phrase. -/
inductive Kind where
  | whole
  | step
  | steps
  | args
  | moreArgs

end Phrase

/-- The structure of the text of an expression. -/
inductive Phrase : Phrase.Kind → Type
  | sign (sign : Phrase.Sign) (operand : Phrase .whole) : Phrase .whole
  | figure (figure : Phrase.Figure) : Phrase .whole
  | word (word : Phrase.Word) (steps : Phrase .steps) : Phrase .whole
  | group (left : Phrase .whole) (op : BinaryOp) (right : Phrase .whole) (steps : Phrase .steps) :
      Phrase .whole
  | field (name : Phrase.Word) : Phrase .step
  | index (position : Phrase .whole) : Phrase .step
  | star : Phrase .step
  | apply (args : Phrase .args) : Phrase .step
  | done : Phrase .steps
  | next (step : Phrase .step) (steps : Phrase .steps) : Phrase .steps
  | noArgs : Phrase .args
  | someArgs (arg : Phrase .whole) (more : Phrase .moreArgs) : Phrase .args
  | lastArg : Phrase .moreArgs
  | nextArg (arg : Phrase .whole) (more : Phrase .moreArgs) : Phrase .moreArgs

namespace Phrase

/-- The text of a phrase. -/
def text : {kind : Kind} → Phrase kind → List Char
  | _, .sign mark operand => mark.char :: operand.text
  | _, .figure number => number.text
  | _, .word name steps => name.text ++ steps.text
  | _, .group left op right steps =>
    '(' :: (left.text ++ ' ' :: (op.text.toList ++ ' ' :: (right.text ++ ')' :: steps.text)))
  | _, .field name => '.' :: name.text
  | _, .index position => '[' :: (position.text ++ [']'])
  | _, .star => ['*']
  | _, .apply args => '(' :: (args.text ++ [')'])
  | _, .done => []
  | _, .next step steps => step.text ++ steps.text
  | _, .noArgs => []
  | _, .someArgs arg more => arg.text ++ more.text
  | _, .lastArg => []
  | _, .nextArg arg more => ',' :: ' ' :: (arg.text ++ more.text)

/-! ## Reading words -/

/-- What two runs of some characters begin with, if neither goes on. -/
theorem run_append_inj {within : Char → Bool} {first second rest others : List Char}
    (inFirst : ∀ c ∈ first, within c = true) (inSecond : ∀ c ∈ second, within c = true)
    (ends : ∀ c ∈ rest.head?, within c = false) (otherEnds : ∀ c ∈ others.head?, within c = false)
    (same : first ++ rest = second ++ others) : first = second ∧ rest = others := by
  have run {word tail : List Char} (inWord : ∀ c ∈ word, within c = true)
      (ends : ∀ c ∈ tail.head?, within c = false) : (word ++ tail).takeWhile within = word := by
    rw [List.takeWhile_append_of_pos inWord]
    cases tail with
    | nil => simp
    | cons c tail => simp [ends c rfl]
  have sameRun : first = second := by rw [← run inFirst ends, same, run inSecond otherEnds]
  exact ⟨sameRun, List.append_cancel_left (sameRun ▸ same)⟩

/-- What may follow a phrase: nothing that would be one of its steps or go on with its last word. -/
def Ends (rest : List Char) : Prop := ∀ c ∈ rest.head?, c ∈ [')', ']', ',', ';', ' ']

/-- A closing character ends a phrase, whatever follows it. -/
theorem Ends.cons {c : Char} {rest : List Char} (closing : c ∈ [')', ']', ',', ';', ' ']) :
    Ends (c :: rest) := by
  intro other isFirst
  obtain rfl := Option.some.inj isFirst
  exact closing

/-- What ends a phrase does not go on with a word. -/
theorem Ends.wordChar {rest : List Char} (ends : Ends rest) :
    ∀ c ∈ rest.head?, wordChar c = false := by
  intro c isFirst
  have closing := ends c isFirst
  simp only [List.mem_cons, List.not_mem_nil, or_false] at closing
  rcases closing with rfl | rfl | rfl | rfl | rfl <;> decide

/-- Nor does it go on with a figure. -/
theorem Ends.figureChar {rest : List Char} (ends : Ends rest) :
    ∀ c ∈ rest.head?, figureChar c = false := by
  intro c isFirst
  have closing := ends c isFirst
  simp only [List.mem_cons, List.not_mem_nil, or_false] at closing
  rcases closing with rfl | rfl | rfl | rfl | rfl <;> decide

/-! ## Reading phrases -/

/-- What may follow a part of a phrase. -/
def Follows : Kind → List Char → Prop
  | .whole, rest => Ends rest
  | .step, rest => ∀ c ∈ rest.head?, wordChar c = false
  | .steps, rest => Ends rest
  | .args, rest => ∃ others, rest = ')' :: others
  | .moreArgs, rest => ∃ others, rest = ')' :: others

/-- The beginnings of phrases, told from the first character. -/
inductive Lead where
  | sign
  | figure
  | word
  | group
  | closing
deriving DecidableEq

/-- The beginning that a first character tells. -/
def leadOf (c : Char) : Lead :=
  if c = '(' then .group
  else if c.isDigit then .figure
  else if wordChar c then .word
  else if c = ')' then .closing
  else .sign

/-- How a phrase begins. -/
def lead : Phrase .whole → Lead
  | .sign _ _ => .sign
  | .figure _ => .figure
  | .word _ _ => .word
  | .group _ _ _ _ => .group

/-- The first character of a phrase tells how it begins. -/
theorem exists_first (phrase : Phrase .whole) :
    ∃ c rest, phrase.text = c :: rest ∧ leadOf c = phrase.lead := by
  cases phrase with
  | sign mark operand => exact ⟨_, _, rfl, by rcases mark with ⟨_ | _ | _⟩ | _ <;> rfl⟩
  | figure number =>
    obtain ⟨c, rest, begins, digit⟩ := number.first
    refine ⟨c, rest, begins, ?_⟩
    have : c ≠ '(' := by rintro rfl; cases digit
    simp [leadOf, lead, this, digit]
  | word name steps =>
    obtain ⟨c, rest, begins, noDigit⟩ := name.first
    refine ⟨c, rest ++ steps.text, by simp [text, begins], ?_⟩
    have inWord := name.chars c (by simp [begins])
    have : c ≠ '(' := by rintro rfl; cases inWord
    simp [leadOf, lead, this, noDigit, inWord]
  | group left op right steps => exact ⟨'(', _, rfl, rfl⟩

/-- Phrases with the same text begin the same. -/
theorem lead_eq {first second : Phrase .whole} {rest others : List Char}
    (same : first.text ++ rest = second.text ++ others) : first.lead = second.lead := by
  obtain ⟨c, tail, begins, leads⟩ := first.exists_first
  obtain ⟨other, otherTail, otherBegins, otherLeads⟩ := second.exists_first
  rw [begins, otherBegins] at same
  obtain rfl : c = other := (List.cons.inj same).1
  exact leads.symm.trans otherLeads

/-- The kinds of steps, told from the first character. -/
inductive Mark where
  | field
  | index
  | star
  | apply
deriving DecidableEq

/-- The character that a kind of step begins with. -/
def Mark.char : Mark → Char
  | field => '.'
  | index => '['
  | star => '*'
  | apply => '('

/-- The kind of a step. -/
def mark : Phrase .step → Mark
  | .field _ => .field
  | .index _ => .index
  | .star => .star
  | .apply _ => .apply

/-- The text of a step begins with its mark. -/
theorem exists_mark (step : Phrase .step) : ∃ rest, step.text = step.mark.char :: rest := by
  cases step with
  | field | index | star | apply => exact ⟨_, rfl⟩

/-- The first character of a step tells its mark. -/
theorem mark_eq {first second : Phrase .step} {rest others : List Char}
    (same : first.text ++ rest = second.text ++ others) : first.mark = second.mark := by
  obtain ⟨tail, begins⟩ := first.exists_mark
  obtain ⟨otherTail, otherBegins⟩ := second.exists_mark
  rw [begins, otherBegins] at same
  have sameChar := (List.cons.inj same).1
  revert sameChar
  cases first.mark <;> cases second.mark <;> decide

/-- No step begins like what follows a phrase. -/
theorem mark_not_ends {step : Phrase .step} {rest : List Char} : ¬ Ends (step.text ++ rest) := by
  intro ends
  obtain ⟨tail, begins⟩ := step.exists_mark
  have closing := ends step.mark.char (by simp [begins])
  revert closing
  cases step.mark <;> decide

/-- The steps of a phrase do not go on with the word before them. -/
theorem steps_wordChar {steps : Phrase .steps} {rest : List Char} (ends : Ends rest) :
    ∀ c ∈ (steps.text ++ rest).head?, wordChar c = false := by
  cases steps with
  | done => exact ends.wordChar
  | next step steps =>
    obtain ⟨tail, begins⟩ := step.exists_mark
    intro c isFirst
    obtain rfl : step.mark.char = c := by simpa [text, begins] using isFirst
    cases step.mark <;> decide

/-- Further arguments end the phrase before them. -/
theorem more_ends {more : Phrase .moreArgs} {rest : List Char} (follows : Follows .moreArgs rest) :
    Ends (more.text ++ rest) := by
  cases more with
  | lastArg =>
    obtain ⟨others, rfl⟩ := follows
    exact .cons (by decide)
  | nextArg => exact .cons (by decide)

/-- The text between two blanks tells the operator. -/
theorem op_text_inj {first second : BinaryOp} {rest others : List Char}
    (same : first.text.toList ++ ' ' :: rest = second.text.toList ++ ' ' :: others) :
    first = second ∧ rest = others := by
  have symbols (op : BinaryOp) : ∀ c ∈ op.text.toList, (c != ' ') = true := by cases op <;> decide
  obtain ⟨sameText, sameRest⟩ := run_append_inj (symbols first) (symbols second)
    (by simp) (by simp) same
  refine ⟨?_, (List.cons.inj sameRest).2⟩
  cases first <;> cases second <;> first | rfl | exact absurd sameText (by decide)

/-- Arguments do not begin like what follows them. -/
theorem not_closing (arg : Phrase .whole) (more : Phrase .moreArgs) {rest others : List Char} :
    Phrase.noArgs.text ++ ')' :: others ≠ (someArgs arg more).text ++ rest := by
  obtain ⟨c, tail, begins, leads⟩ := arg.exists_first
  intro same
  simp only [text, List.nil_append, begins, List.cons_append, List.cons.injEq] at same
  obtain rfl := same.1
  cases arg <;> cases leads

/-- A text is that of at most one phrase, whatever follows. -/
theorem text_append_inj {kind : Kind} (first second : Phrase kind) {rest others : List Char}
    (follows : Follows kind rest) (otherFollows : Follows kind others)
    (same : first.text ++ rest = second.text ++ others) : first = second ∧ rest = others := by
  induction first generalizing rest others with
  | sign mark operand inOperand =>
    have sameLead := lead_eq same
    cases second <;> try cases sameLead
    case sign otherMark otherOperand =>
      obtain ⟨sameMark, sameOperand⟩ := List.cons.inj same
      obtain rfl := Sign.char_inj sameMark
      obtain ⟨rfl, rfl⟩ := inOperand otherOperand follows otherFollows sameOperand
      exact ⟨rfl, rfl⟩
  | figure number =>
    have sameLead := lead_eq same
    cases second <;> try cases sameLead
    case figure other =>
      obtain ⟨sameText, rfl⟩ := run_append_inj number.chars other.chars follows.figureChar
        otherFollows.figureChar same
      obtain rfl := Figure.ext sameText
      exact ⟨rfl, rfl⟩
  | word name steps inSteps =>
    have sameLead := lead_eq same
    cases second <;> try cases sameLead
    case word other otherSteps =>
      simp only [text, List.append_assoc] at same
      obtain ⟨sameText, sameSteps⟩ := run_append_inj name.chars other.chars (steps_wordChar follows)
        (steps_wordChar otherFollows) same
      obtain rfl := Word.ext sameText
      obtain ⟨rfl, rfl⟩ := inSteps otherSteps follows otherFollows sameSteps
      exact ⟨rfl, rfl⟩
  | group left op right steps inLeft inRight inSteps =>
    have sameLead := lead_eq same
    cases second <;> try cases sameLead
    case group otherLeft otherOp otherRight otherSteps =>
      simp only [text, List.cons_append, List.append_assoc, List.cons.injEq, true_and] at same
      obtain ⟨rfl, afterLeft⟩ := inLeft otherLeft (.cons (by decide)) (.cons (by decide)) same
      obtain ⟨rfl, afterOp⟩ := op_text_inj (List.cons.inj afterLeft).2
      obtain ⟨rfl, afterRight⟩ := inRight otherRight (.cons (by decide)) (.cons (by decide)) afterOp
      obtain ⟨rfl, rfl⟩ := inSteps otherSteps follows otherFollows (List.cons.inj afterRight).2
      exact ⟨rfl, rfl⟩
  | field name =>
    have sameMark := mark_eq same
    cases second <;> try cases sameMark
    case field other =>
      obtain ⟨sameText, rfl⟩ := run_append_inj name.chars other.chars follows otherFollows
        (List.cons.inj same).2
      obtain rfl := Word.ext sameText
      exact ⟨rfl, rfl⟩
  | index position inPosition =>
    have sameMark := mark_eq same
    cases second <;> try cases sameMark
    case index other =>
      simp only [text, List.cons_append, List.append_assoc, List.cons.injEq, true_and] at same
      obtain ⟨rfl, afterPosition⟩ := inPosition other (.cons (by decide)) (.cons (by decide)) same
      exact ⟨rfl, (List.cons.inj afterPosition).2⟩
  | star =>
    have sameMark := mark_eq same
    cases second <;> try cases sameMark
    case star => exact ⟨rfl, (List.cons.inj same).2⟩
  | apply args inArgs =>
    have sameMark := mark_eq same
    cases second <;> try cases sameMark
    case apply other =>
      simp only [text, List.cons_append, List.append_assoc, List.cons.injEq, true_and] at same
      obtain ⟨rfl, afterArgs⟩ := inArgs other ⟨_, rfl⟩ ⟨_, rfl⟩ same
      exact ⟨rfl, (List.cons.inj afterArgs).2⟩
  | done =>
    cases second with
    | done => exact ⟨rfl, same⟩
    | next step steps =>
      simp only [text, List.nil_append, List.append_assoc] at same
      exact absurd (same ▸ follows) mark_not_ends
  | next step steps inStep inSteps =>
    cases second with
    | done =>
      simp only [text, List.nil_append, List.append_assoc] at same
      exact absurd (same ▸ otherFollows) mark_not_ends
    | next otherStep otherSteps =>
      simp only [text, List.append_assoc] at same
      obtain ⟨rfl, afterStep⟩ := inStep otherStep (steps_wordChar follows)
        (steps_wordChar otherFollows) same
      obtain ⟨rfl, rfl⟩ := inSteps otherSteps follows otherFollows afterStep
      exact ⟨rfl, rfl⟩
  | noArgs =>
    cases second with
    | noArgs => exact ⟨rfl, same⟩
    | someArgs arg more =>
      obtain ⟨others, rfl⟩ := follows
      exact absurd same (not_closing arg more)
  | someArgs arg more inArg inMore =>
    cases second with
    | noArgs =>
      obtain ⟨others, rfl⟩ := otherFollows
      exact absurd same.symm (not_closing arg more)
    | someArgs otherArg otherMore =>
      simp only [text, List.append_assoc] at same
      obtain ⟨rfl, afterArg⟩ := inArg otherArg (more_ends follows) (more_ends otherFollows) same
      obtain ⟨rfl, rfl⟩ := inMore otherMore follows otherFollows afterArg
      exact ⟨rfl, rfl⟩
  | lastArg =>
    cases second with
    | lastArg => exact ⟨rfl, same⟩
    | nextArg arg more =>
      obtain ⟨rest, rfl⟩ := follows
      exact absurd (List.cons.inj same).1 (by decide)
  | nextArg arg more inArg inMore =>
    cases second with
    | lastArg =>
      obtain ⟨rest, rfl⟩ := otherFollows
      exact absurd (List.cons.inj same).1 (by decide)
    | nextArg otherArg otherMore =>
      simp only [text, List.cons_append, List.append_assoc, List.cons.injEq, true_and] at same
      obtain ⟨rfl, afterArg⟩ := inArg otherArg (more_ends follows) (more_ends otherFollows) same
      obtain ⟨rfl, rfl⟩ := inMore otherMore follows otherFollows afterArg
      exact ⟨rfl, rfl⟩

/-- A text is that of at most one phrase. -/
theorem text_injective {first second : Phrase .whole} (same : first.text = second.text) :
    first = second := by
  have ends : Follows .whole [] := fun c isFirst => nomatch isFirst
  exact (text_append_inj first second ends ends (by rw [same])).1

/-- A phrase is on one line. -/
theorem newline_not_mem {kind : Kind} (phrase : Phrase kind) : '\n' ∉ phrase.text := by
  have noWord (name : Word) : '\n' ∉ name.text := fun inside => nomatch name.chars _ inside
  induction phrase with
  | sign mark operand inOperand =>
    have noMark : mark.char ≠ '\n' := by
      rcases mark with ⟨_ | _ | _⟩ | _ <;> decide
    simp [text, noMark.symm, inOperand]
  | figure number => exact fun inside => nomatch number.chars _ inside
  | word name steps inSteps => simp [text, noWord name, inSteps]
  | group left op right steps inLeft inRight inSteps =>
    have noOp : '\n' ∉ op.text.toList := by cases op <;> decide
    simp [text, noOp, inLeft, inRight, inSteps]
  | field name => simp [text, noWord name]
  | index position inPosition => simp [text, inPosition]
  | apply args inArgs => simp [text, inArgs]
  | next step steps inStep inSteps => simp [text, inStep, inSteps]
  | someArgs arg more inArg inMore => simp [text, inArg, inMore]
  | nextArg arg more inArg inMore => simp [text, inArg, inMore]
  | star | done | noArgs | lastArg => simp [text]

/-! ## Building phrases -/

/-- One more step at the end of a phrase. -/
def snoc : {kind : Kind} → Phrase kind → Phrase .step → Phrase kind
  | _, .word name steps, step => .word name (steps.snoc step)
  | _, .group left op right steps, step => .group left op right (steps.snoc step)
  | _, .done, step => .next step .done
  | _, .next first steps, step => .next first (steps.snoc step)
  | _, other, _ => other

/-- A phrase that can be gone on with: its last part is not the operand of a sign or a figure. -/
def Open : Phrase .whole → Prop
  | .sign _ _ => False
  | .figure _ => False
  | .word _ _ => True
  | .group _ _ _ _ => True

/-- A word can be gone on with, whatever its steps are. -/
theorem open_word {name : Phrase.Word} {steps : Phrase .steps} : (Phrase.word name steps).Open :=
  trivial

section Snoc

variable {step other : Phrase .step}

/-- One more step puts its text at the end. -/
theorem steps_text_snoc (steps : Phrase .steps) :
    (steps.snoc step).text = steps.text ++ step.text := by
  cases steps with
  | done => simp [snoc, text]
  | next first steps => simp [snoc, text, steps_text_snoc steps]

/-- Steps with one more at the end are not none. -/
theorem snoc_ne_done (steps : Phrase .steps) : steps.snoc step ≠ .done := by
  cases steps <;> simp [snoc]

/-- The last step and those before it are told from all of them. -/
theorem steps_snoc_inj {steps others : Phrase .steps} (same : steps.snoc step = others.snoc other) :
    steps = others ∧ step = other := by
  cases steps with
  | done =>
    cases others with
    | done => exact ⟨rfl, (Phrase.next.inj same).1⟩
    | next first others => exact absurd (Phrase.next.inj same).2.symm (snoc_ne_done others)
  | next first steps =>
    cases others with
    | done => exact absurd (Phrase.next.inj same).2 (snoc_ne_done steps)
    | next otherFirst others =>
      obtain ⟨rfl, rest⟩ := Phrase.next.inj same
      obtain ⟨rfl, rfl⟩ := steps_snoc_inj rest
      exact ⟨rfl, rfl⟩

/-- The last step and what stands before it can be told from a phrase. -/
theorem snoc_inj {first second : Phrase .whole} (isOpen : first.Open) (otherOpen : second.Open)
    (same : first.snoc step = second.snoc other) : first = second ∧ step = other := by
  cases first with
  | sign | figure => cases isOpen
  | word name steps =>
    cases second with
    | sign | figure => cases otherOpen
    | group => cases same
    | word otherName otherSteps =>
      obtain ⟨rfl, sameSteps⟩ := Phrase.word.inj same
      obtain ⟨rfl, rfl⟩ := steps_snoc_inj sameSteps
      exact ⟨rfl, rfl⟩
  | group left op right steps =>
    cases second with
    | sign | figure => cases otherOpen
    | word => cases same
    | group otherLeft otherOp otherRight otherSteps =>
      obtain ⟨rfl, rfl, rfl, sameSteps⟩ := Phrase.group.inj same
      obtain ⟨rfl, rfl⟩ := steps_snoc_inj sameSteps
      exact ⟨rfl, rfl⟩

/-- One more step puts its text behind a phrase that can be gone on with. -/
theorem text_snoc {phrase : Phrase .whole} (isOpen : phrase.Open) :
    (phrase.snoc step).text = phrase.text ++ step.text := by
  cases phrase with
  | sign | figure => cases isOpen
  | word name steps => simp [snoc, text, steps_text_snoc]
  | group left op right steps => simp [snoc, text, steps_text_snoc]

/-- After one more step, a phrase can still be gone on with. -/
theorem Open.snoc {phrase : Phrase .whole} (isOpen : phrase.Open) : (phrase.snoc step).Open := by
  cases phrase with
  | sign | figure => cases isOpen
  | word | group => trivial

end Snoc

end Phrase

end ShaderPipeline
