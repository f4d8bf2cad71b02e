import ShaderPipeline.Proofs.Text.Constants
import ShaderPipeline.Proofs.Text.Names
import ShaderPipeline.Proofs.Tree
import ShaderPipeline.Proofs.Types
import ShaderPipeline.Proofs.Validity.Rules

/-!
# Expressions from their texts

A valid expression reads as a phrase, whose text is that of the expression. Parentheses
stand around binary operations only, so an element of an operand behind a sign reads like
the sign before the element, and a negated constant like the constant's negative.
In legible tables these are the only ways to write two expressions the same, besides
floats that are not numbers and types with the same spelling: plain expressions, which
are free of all that, are told by their texts.
-/

namespace ShaderPipeline

open Phrase

/-! ## The form of a phrase -/

namespace Phrase

/-- Several arguments after the first. -/
def moreOf : List (Phrase .whole) → Phrase .moreArgs
  | [] => .lastArg
  | arg :: args => .nextArg arg (moreOf args)

/-- Several arguments. -/
def argsOf : List (Phrase .whole) → Phrase .args
  | [] => .noArgs
  | arg :: args => .someArgs arg (moreOf args)

/-- Further arguments are told from their phrase. -/
theorem moreOf_inj {first second : List (Phrase .whole)} (same : moreOf first = moreOf second) :
    first = second := by
  induction first generalizing second with
  | nil =>
    cases second with
    | nil => rfl
    | cons => cases same
  | cons arg args inductionHypothesis =>
    cases second with
    | nil => cases same
    | cons other others =>
      obtain ⟨rfl, rest⟩ := Phrase.nextArg.inj same
      rw [inductionHypothesis rest]

/-- So are all arguments. -/
theorem argsOf_inj {first second : List (Phrase .whole)} (same : argsOf first = argsOf second) :
    first = second := by
  cases first with
  | nil =>
    cases second with
    | nil => rfl
    | cons => cases same
  | cons arg args =>
    cases second with
    | nil => cases same
    | cons other others =>
      obtain ⟨rfl, rest⟩ := Phrase.someArgs.inj same
      rw [moreOf_inj rest]

/-- Arguments are written with commas between them. -/
theorem text_argsOf (args : List (Phrase .whole)) :
    (argsOf args).text = [',', ' '].intercalate (args.map text) := by
  have more (arg : Phrase .whole) (args : List (Phrase .whole)) :
      arg.text ++ (moreOf args).text = [',', ' '].intercalate ((arg :: args).map text) := by
    induction args generalizing arg with
    | nil => simp [moreOf, text]
    | cons next args inductionHypothesis =>
      rw [moreOf, text, inductionHypothesis next]
      simp
  cases args with
  | nil => rfl
  | cons arg args => exact more arg args

/-- What a phrase ends with, or begins with if nothing comes after that. -/
inductive Form where
  | figure
  | word
  | group
  | sign (sign : Sign)
  | step (mark : Mark)
deriving DecidableEq

/-- The kind of the last step. -/
def lastMark : {kind : Kind} → Phrase kind → Option Mark
  | _, .next step steps => some (steps.lastMark.getD step.mark)
  | _, _ => none

/-- What a phrase ends with: its last step, or else what it begins with. -/
def form : Phrase .whole → Form
  | .sign mark _ => .sign mark
  | .figure _ => .figure
  | .word _ steps => (steps.lastMark.map Form.step).getD .word
  | .group _ _ _ steps => (steps.lastMark.map Form.step).getD .group

/-- The last step is the one that was put at the end. -/
theorem lastMark_snoc (steps : Phrase .steps) (step : Phrase .step) :
    (steps.snoc step).lastMark = some step.mark := by
  cases steps with
  | done => rfl
  | next first steps => simp [snoc, lastMark, lastMark_snoc steps]

/-- So a phrase that goes on with a step ends with that step. -/
theorem form_snoc {phrase : Phrase .whole} (isOpen : phrase.Open) (step : Phrase .step) :
    (phrase.snoc step).form = .step step.mark := by
  cases phrase with
  | sign | figure => cases isOpen
  | word name steps => simp [snoc, form, lastMark_snoc]
  | group left op right steps => simp [snoc, form, lastMark_snoc]

end Phrase

/-! ## Reading expressions -/

namespace Expr

/-- Whether an expression is an operand behind a sign. -/
def isSigned : Expr → Bool
  | unary _ _ | addressOf _ => true
  | _ => false

/-- Whether an expression is a constant. -/
def isConst : Expr → Bool
  | const _ => true
  | _ => false

/-- The form of the phrase that an expression other than a constant reads as. -/
def form? : Expr → Option Form
  | const _ => none
  | var _ => some .word
  | field _ _ => some (.step .field)
  | index _ _ => some (.step .index)
  | unary op _ => some (.sign (.op op))
  | binary _ _ _ => some .group
  | construct _ _ | call _ _ | sample _ _ => some (.step .apply)
  | addressOf _ => some (.sign .address)

end Expr

namespace Tables

/-- No other type is spelled like this one. -/
def Distinctive (tables : Tables) (type : TypeId) : Prop :=
  ∀ {other : TypeId} {text : String}, tables.typeText type = .ok text →
    tables.typeText other = .ok text → type = other

/-- A part of an expression that nothing else is written like: constants are numbers, nothing is
selected from an operand behind a sign, no constant is negated that has a negative of its own, and
constructed types have a spelling of their own. -/
def Plain (tables : Tables) : Expr → Prop
  | .const value => value.isNaN = false
  | .field base _ => base.isSigned = false
  | .index base _ => base.isSigned = false
  | .unary op operand => op = .negate → ∀ value, operand = .const value → value.hasNegative = false
  | .construct type _ => tables.Distinctive type
  | .var _ | .binary _ _ _ | .call _ _ | .sample _ _ | .addressOf _ => True

/-- The name of the sampling function is a word. -/
theorem isWord_texture : IsWord "texture".toList := ⟨⟨_, _, rfl, rfl⟩, by decide⟩

/-- What an expression reads as. -/
inductive ReadsAs (tables : Tables) : Expr → Phrase .whole → Prop
  | const {value : Constant} {phrase : Phrase .whole} (literal : phrase.Literal)
      (sign : value.negative = false) (spelled : phrase.text = value.magnitude) :
      ReadsAs tables (.const value) phrase
  | negative {value : Constant} {phrase : Phrase .whole} (literal : phrase.Literal)
      (sign : value.negative = true) (spelled : phrase.text = value.magnitude) :
      ReadsAs tables (.const value) (.sign (.op .negate) phrase)
  | var {id : VariableId} {name : String} (isName : IsName name)
      (named : tables.variableText id = .ok name) :
      ReadsAs tables (.var id) (.word isName.isWord.word .done)
  | field {base : Expr} {position : Nat} {front : Phrase .whole} {type : TypeId} {field : Field}
      (isName : IsName (field.name.spell position)) (ofBase : ReadsAs tables base front)
      (isOpen : front.Open) (typed : tables.typeOf base = .ok type)
      (selected : tables.fieldAt type position = .ok field) :
      ReadsAs tables (.field base position) (front.snoc (.field isName.isWord.word))
  | index {base position : Expr} {front inner : Phrase .whole} (ofBase : ReadsAs tables base front)
      (isOpen : front.Open) (ofPosition : ReadsAs tables position inner) :
      ReadsAs tables (.index base position) (front.snoc (.index inner))
  | unary {op : UnaryOp} {operand : Expr} {inner : Phrase .whole}
      (ofOperand : ReadsAs tables operand inner) :
      ReadsAs tables (.unary op operand) (.sign (.op op) inner)
  | binary {op : BinaryOp} {left right : Expr} {before after : Phrase .whole}
      (ofLeft : ReadsAs tables left before) (ofRight : ReadsAs tables right after) :
      ReadsAs tables (.binary op left right) (.group before op after .done)
  | construct {type : TypeId} {args : List Expr} {spelling : String} {made : Phrase .whole}
      {inner : List (Phrase .whole)} (isType : TypePhrase spelling made)
      (spelled : tables.typeText type = .ok spelling)
      (ofArgs : List.Forall₂ (ReadsAs tables) args inner) :
      ReadsAs tables (.construct type args) (made.snoc (.apply (argsOf inner)))
  | call {callee : FunctionId} {args : List Expr} {name : String} {inner : List (Phrase .whole)}
      (isName : IsName name) (named : tables.functionText callee = .ok name)
      (ofArgs : List.Forall₂ (ReadsAs tables) args inner) :
      ReadsAs tables (.call callee args)
        (snoc (.word isName.isWord.word .done) (.apply (argsOf inner)))
  | sample {sampler coordinates : Expr} {first second : Phrase .whole}
      (ofSampler : ReadsAs tables sampler first)
      (ofCoordinates : ReadsAs tables coordinates second) :
      ReadsAs tables (.sample sampler coordinates)
        (snoc (.word isWord_texture.word .done) (.apply (argsOf [first, second])))
  | addressOf {operand : Expr} {inner : Phrase .whole} (ofOperand : ReadsAs tables operand inner) :
      ReadsAs tables (.addressOf operand) (.sign .address inner)

variable {tables : Tables}

namespace ReadsAs

/-- The phrase that an expression reads as has the form of the expression. -/
theorem form_eq {expr : Expr} {phrase : Phrase .whole} (reads : tables.ReadsAs expr phrase)
    (noConst : expr.isConst = false) : expr.form? = some phrase.form := by
  cases reads with
  | const | negative => cases noConst
  | field _ _ isOpen | index _ isOpen =>
    rw [form_snoc isOpen]
    rfl
  | construct isType =>
    rw [form_snoc isType.isOpen]
    rfl
  | var | unary | binary | call | sample | addressOf => rfl

/-- The phrase of an expression that is no constant and has no sign can be gone on with. -/
theorem isOpen {expr : Expr} {phrase : Phrase .whole} (reads : tables.ReadsAs expr phrase)
    (noConst : expr.isConst = false) (unsigned : expr.isSigned = false) : phrase.Open := by
  cases reads with
  | const | negative => cases noConst
  | unary | addressOf => cases unsigned
  | field _ _ isOpen | index _ isOpen => exact isOpen.snoc
  | construct isType => exact isType.isOpen.snoc
  | var | binary | call | sample => trivial

/-- Only constants without a sign read as one. -/
theorem of_literal {expr : Expr} {phrase : Phrase .whole} (reads : tables.ReadsAs expr phrase)
    (literal : phrase.Literal) : ∃ value : Constant, expr = .const value ∧
      value.negative = false ∧ phrase.text = value.magnitude := by
  cases expr with
  | const value =>
    cases reads with
    | const _ sign spelled => exact ⟨value, rfl, sign, spelled⟩
    | negative => cases literal
  | var id =>
    cases reads with
    | var isName =>
      cases literal with
      | word special =>
        have keyword : ∀ word ∈ literalWords, word ∈ keywords := by decide
        rw [IsWord.word, String.ofList_toList] at special
        exact absurd (keyword _ special) isName.2.2
  | _ =>
    have form := reads.form_eq rfl
    cases literal <;> cases Option.some.inj form

/-- A plain expression that reads like a number is that number. -/
theorem eq_const {value : Constant} {expr : Expr} {phrase : Phrase .whole}
    (ofConst : tables.ReadsAs (.const value) phrase) (reads : tables.ReadsAs expr phrase)
    (isNumber : value.isNaN = false) (plain : expr.Every tables.Plain) : expr = .const value := by
  cases ofConst with
  | const literal sign spelled =>
    obtain ⟨other, rfl, otherSign, otherSpelled⟩ := reads.of_literal literal
    rw [Constant.magnitude_inj (Expr.every_const.mp plain) isNumber (otherSign.trans sign.symm)
      (otherSpelled.symm.trans spelled)]
  | @negative _ inner literal sign spelled =>
    generalize same : Phrase.sign (.op .negate) inner = phrase at reads
    have form : phrase.form = .sign (.op .negate) := by rw [← same]; rfl
    cases expr with
    | const other =>
      cases reads with
      | const literal => subst same; cases literal
      | negative _ otherSign otherSpelled =>
        obtain ⟨-, rfl⟩ := Phrase.sign.inj same
        rw [Constant.magnitude_inj (Expr.every_const.mp plain) isNumber (otherSign.trans sign.symm)
          (otherSpelled.symm.trans spelled)]
    | unary op operand =>
      cases reads with
      | unary ofOperand =>
        obtain ⟨sameSign, rfl⟩ := Phrase.sign.inj same
        obtain rfl := Sign.op.inj sameSign
        obtain ⟨other, rfl, otherSign, otherSpelled⟩ := ofOperand.of_literal literal
        obtain ⟨negated, ofOther⟩ := Expr.every_unary.mp plain
        have hasNegative := Constant.hasNegative_of_magnitude (Expr.every_const.mp ofOther) sign
          otherSign (spelled.symm.trans otherSpelled)
        rw [negated rfl other rfl] at hasNegative
        cases hasNegative
    | _ => cases (reads.form_eq rfl).trans (congrArg some form)

/-- Two expressions that read as the same phrase may be compared as if they were no constants. -/
theorem resolve {first second : Expr} {phrase other : Phrase .whole}
    (reads : tables.ReadsAs first phrase) (otherReads : tables.ReadsAs second other)
    (same : phrase = other) (plain : first.Every tables.Plain)
    (otherPlain : second.Every tables.Plain) (noConst : first.isConst = false)
    (alike : first.form? = second.form? → first = second) : first = second := by
  subst same
  cases otherConst : second.isConst with
  | true =>
    cases second with
    | const value => exact otherReads.eq_const reads (Expr.every_const.mp otherPlain) plain
    | _ => cases otherConst
  | false => exact alike ((reads.form_eq noConst).trans (otherReads.form_eq otherConst).symm)

end ReadsAs

/-- Arguments that read as the same phrases are the same if each of them is. -/
theorem readsAll_inj {args others : List Expr} {inner : List (Phrase .whole)}
    (ofArgs : List.Forall₂ tables.ReadsAs args inner)
    (ofOthers : List.Forall₂ tables.ReadsAs others inner)
    (each : ∀ arg ∈ args, ∀ other ∈ others, ∀ phrase, tables.ReadsAs arg phrase →
      tables.ReadsAs other phrase → arg = other) : args = others := by
  induction ofArgs generalizing others with
  | nil =>
    cases ofOthers
    rfl
  | @cons arg phrase args inner ofArg _ inductionHypothesis =>
    cases ofOthers with
    | @cons other _ others _ ofOther ofOthers =>
      rw [each arg List.mem_cons_self other List.mem_cons_self phrase ofArg ofOther,
        inductionHypothesis ofOthers fun arg member other otherMember =>
          each arg (List.mem_cons_of_mem _ member) other (List.mem_cons_of_mem _ otherMember)]

namespace ReadsAs

variable {type : TypeId} {callee : FunctionId} {args others : List Expr} {sampler coordinates : Expr}
  {phrase other : Phrase .whole}

/-- A constructor does not read like a call, whose name is not that of a type. -/
theorem construct_ne_call (legible : tables.Legible)
    (reads : tables.ReadsAs (.construct type args) phrase)
    (called : tables.ReadsAs (.call callee others) other) : phrase ≠ other := by
  intro same
  cases reads with
  | construct isType spelled =>
    cases called with
    | call isName named =>
      obtain ⟨rfl, -⟩ := snoc_inj isType.isOpen open_word same
      rw [isType.eq_of_word] at spelled
      exact absurd named (legible.typeText_ne_functionText spelled)

/-- A constructor does not read like sampling, which is called by a keyword. -/
theorem construct_ne_sample (reads : tables.ReadsAs (.construct type args) phrase)
    (sampled : tables.ReadsAs (.sample sampler coordinates) other) : phrase ≠ other := by
  intro same
  cases reads with
  | construct isType =>
    cases sampled with
    | sample =>
      obtain ⟨rfl, -⟩ := snoc_inj isType.isOpen open_word same
      exact absurd isType.eq_of_word (isType.ne_keyword (by decide))

/-- A call does not read as the look-up of a texel. -/
theorem call_ne_sample (called : tables.ReadsAs (.call callee args) phrase)
    (sampled : tables.ReadsAs (.sample sampler coordinates) other) : phrase ≠ other := by
  intro same
  cases called with
  | call isName =>
    cases sampled with
    | sample =>
      obtain ⟨sameFront, -⟩ := snoc_inj open_word open_word same
      have sameText := congrArg Word.text (Phrase.word.inj sameFront).1
      exact absurd (String.toList_inj.mp sameText) (isName.ne_keyword (by decide))

end ReadsAs

/-- Plain expressions that read as the same phrase are the same. -/
theorem ReadsAs.inj (legible : tables.Legible) {first second : Expr} {phrase other : Phrase .whole}
    (reads : tables.ReadsAs first phrase) (otherReads : tables.ReadsAs second other)
    (same : phrase = other) (plain : first.Every tables.Plain)
    (otherPlain : second.Every tables.Plain) : first = second := by
  -- The forms of the phrases leave only expressions of the same kind, besides constants and the
  -- three kinds that end with arguments.
  induction first generalizing second phrase other with
  | const value =>
    exact (reads.eq_const (same ▸ otherReads) (Expr.every_const.mp plain) otherPlain).symm
  | var id =>
    refine reads.resolve otherReads same plain otherPlain rfl fun alike => ?_
    cases second <;> try cases alike
    case var otherId =>
      cases reads with
      | var isName named =>
        cases otherReads with
        | var otherName otherNamed =>
          have sameText := congrArg Word.text (Phrase.word.inj same).1
          rw [String.toList_inj.mp sameText] at named
          rw [legible.variableText_inj named otherNamed]
  | field base position inBase =>
    refine reads.resolve otherReads same plain otherPlain rfl fun alike => ?_
    cases second <;> try cases alike
    case field otherBase otherPosition =>
      cases reads with
      | field isName ofBase isOpen typed selected =>
        cases otherReads with
        | field otherName ofOther otherOpen otherTyped otherSelected =>
          obtain ⟨sameFront, sameStep⟩ := snoc_inj isOpen otherOpen same
          obtain rfl := inBase ofBase ofOther sameFront (Expr.every_field.mp plain).2
            (Expr.every_field.mp otherPlain).2
          obtain rfl := Except.ok.inj (typed.symm.trans otherTyped)
          have sameText := congrArg Word.text (Phrase.field.inj sameStep)
          rw [legible.fieldAt_inj selected otherSelected (String.toList_inj.mp sameText)]
  | index base position inBase inPosition =>
    refine reads.resolve otherReads same plain otherPlain rfl fun alike => ?_
    cases second <;> try cases alike
    case index otherBase otherPosition =>
      obtain ⟨-, plainBase, plainPosition⟩ := Expr.every_index.mp plain
      obtain ⟨-, otherPlainBase, otherPlainPosition⟩ := Expr.every_index.mp otherPlain
      cases reads with
      | index ofBase isOpen ofPosition =>
        cases otherReads with
        | index ofOther otherOpen ofOtherPosition =>
          obtain ⟨sameFront, sameStep⟩ := snoc_inj isOpen otherOpen same
          obtain rfl := inBase ofBase ofOther sameFront plainBase otherPlainBase
          obtain rfl := inPosition ofPosition ofOtherPosition (Phrase.index.inj sameStep)
            plainPosition otherPlainPosition
          rfl
  | unary op operand inOperand =>
    refine reads.resolve otherReads same plain otherPlain rfl fun alike => ?_
    cases second <;> try cases alike
    case unary otherOperand =>
      cases reads with
      | unary ofOperand =>
        cases otherReads with
        | unary ofOther =>
          obtain rfl := inOperand ofOperand ofOther (Phrase.sign.inj same).2
            (Expr.every_unary.mp plain).2 (Expr.every_unary.mp otherPlain).2
          rfl
  | binary op left right inLeft inRight =>
    refine reads.resolve otherReads same plain otherPlain rfl fun alike => ?_
    cases second <;> try cases alike
    case binary otherOp otherLeft otherRight =>
      obtain ⟨-, plainLeft, plainRight⟩ := Expr.every_binary.mp plain
      obtain ⟨-, otherPlainLeft, otherPlainRight⟩ := Expr.every_binary.mp otherPlain
      cases reads with
      | binary ofLeft ofRight =>
        cases otherReads with
        | binary ofOtherLeft ofOtherRight =>
          obtain ⟨sameLeft, rfl, sameRight, -⟩ := Phrase.group.inj same
          obtain rfl := inLeft ofLeft ofOtherLeft sameLeft plainLeft otherPlainLeft
          obtain rfl := inRight ofRight ofOtherRight sameRight plainRight otherPlainRight
          rfl
  | construct type args inArgs =>
    refine reads.resolve otherReads same plain otherPlain rfl fun alike => ?_
    obtain ⟨distinctive, plainArgs⟩ := Expr.every_construct.mp plain
    cases second <;> try (cases alike; done)
    case construct =>
      obtain ⟨-, otherPlainArgs⟩ := Expr.every_construct.mp otherPlain
      cases reads with
      | construct isType spelled ofArgs =>
        cases otherReads with
        | construct otherIsType otherSpelled ofOthers =>
          obtain ⟨rfl, sameStep⟩ := snoc_inj isType.isOpen otherIsType.isOpen same
          obtain rfl := isType.text_inj otherIsType
          obtain rfl := argsOf_inj (Phrase.apply.inj sameStep)
          obtain rfl := distinctive spelled otherSpelled
          rw [readsAll_inj ofArgs ofOthers fun arg member other otherMember phrase reads others =>
            inArgs arg member reads others rfl (plainArgs arg member)
              (otherPlainArgs other otherMember)]
    case call => exact absurd same (reads.construct_ne_call legible otherReads)
    case sample => exact absurd same (reads.construct_ne_sample otherReads)
  | call callee args inArgs =>
    refine reads.resolve otherReads same plain otherPlain rfl fun alike => ?_
    obtain ⟨-, plainArgs⟩ := Expr.every_call.mp plain
    cases second <;> try (cases alike; done)
    case construct => exact absurd same.symm (otherReads.construct_ne_call legible reads)
    case call =>
      obtain ⟨-, otherPlainArgs⟩ := Expr.every_call.mp otherPlain
      cases reads with
      | call isName named ofArgs =>
        cases otherReads with
        | call otherName otherNamed ofOthers =>
          obtain ⟨sameFront, sameStep⟩ := snoc_inj open_word open_word same
          have sameText := congrArg Word.text (Phrase.word.inj sameFront).1
          rw [String.toList_inj.mp sameText] at named
          obtain rfl := legible.functionText_inj named otherNamed
          obtain rfl := argsOf_inj (Phrase.apply.inj sameStep)
          rw [readsAll_inj ofArgs ofOthers fun arg member other otherMember phrase reads others =>
            inArgs arg member reads others rfl (plainArgs arg member)
              (otherPlainArgs other otherMember)]
    case sample => exact absurd same (reads.call_ne_sample otherReads)
  | sample sampler coordinates inSampler inCoordinates =>
    refine reads.resolve otherReads same plain otherPlain rfl fun alike => ?_
    obtain ⟨-, plainSampler, plainCoordinates⟩ := Expr.every_sample.mp plain
    cases second <;> try (cases alike; done)
    case construct => exact absurd same.symm (otherReads.construct_ne_sample reads)
    case call => exact absurd same.symm (otherReads.call_ne_sample reads)
    case sample =>
      obtain ⟨-, otherPlainSampler, otherPlainCoordinates⟩ := Expr.every_sample.mp otherPlain
      cases reads with
      | sample ofSampler ofCoordinates =>
        cases otherReads with
        | sample ofOther ofOtherCoordinates =>
          have sameArgs := argsOf_inj (Phrase.apply.inj (snoc_inj open_word open_word same).2)
          simp only [List.cons.injEq, and_true] at sameArgs
          obtain rfl := inSampler ofSampler ofOther sameArgs.1 plainSampler otherPlainSampler
          obtain rfl := inCoordinates ofCoordinates ofOtherCoordinates sameArgs.2 plainCoordinates
            otherPlainCoordinates
          rfl
  | addressOf operand inOperand =>
    refine reads.resolve otherReads same plain otherPlain rfl fun alike => ?_
    cases second <;> try cases alike
    case addressOf otherOperand =>
      cases reads with
      | addressOf ofOperand =>
        cases otherReads with
        | addressOf ofOther =>
          obtain rfl := inOperand ofOperand ofOther (Phrase.sign.inj same).2
            (Expr.every_addressOf.mp plain).2 (Expr.every_addressOf.mp otherPlain).2
          rfl

/-! ## Every valid expression can be read -/

/-- Literals have no fields and no elements. -/
theorem Sound.isConst_of_typed (sound : tables.Sound) {base : Expr} {type : TypeId} {entry : Ty}
    (typed : tables.typeOf base = .ok type) (known : tables.types[type.index]? = some entry)
    (composite : entry.fields?.isSome = true ∨ entry.element?.isSome = true) :
    base.isConst = false := by
  cases base with
  | const value =>
    obtain rfl := Except.ok.inj typed
    obtain ⟨kind, scalar⟩ : ∃ kind, predefinedTypes[value.type.index]? = some (.scalar kind) := by
      cases value <;> exact ⟨_, rfl⟩
    rw [sound.predefined scalar] at known
    obtain rfl := Option.some.inj known
    simp [Ty.fields?, Ty.element?] at composite
  | _ => rfl

/-- Several arguments can be read if each of them can. -/
theorem exists_readsAll {args : List Expr} {texts : List String}
    (written : tables.exprTexts args = .ok texts)
    (each : ∀ arg ∈ args, ∀ text, tables.exprText arg = .ok text →
      ∃ phrase, tables.ReadsAs arg phrase ∧ phrase.text = text.toList) :
    ∃ inner, List.Forall₂ tables.ReadsAs args inner ∧
      inner.map Phrase.text = texts.map String.toList := by
  induction args generalizing texts with
  | nil =>
    obtain rfl := Except.ok.inj written
    exact ⟨[], .nil, rfl⟩
  | cons arg args inductionHypothesis =>
    rw [exprTexts, Outcome.bind_eq_ok_iff] at written
    obtain ⟨text, argWritten, written⟩ := written
    obtain ⟨others, argsWritten, same⟩ := Outcome.bind_eq_ok_iff.mp written
    obtain rfl := Except.ok.inj same
    rw [List.forall_mem_cons] at each
    obtain ⟨phrase, reads, spelled⟩ := each.1 text argWritten
    obtain ⟨inner, readAll, spelledAll⟩ := inductionHypothesis argsWritten each.2
    exact ⟨phrase :: inner, .cons reads readAll, by simp [spelled, spelledAll]⟩

/-- The text of a valid plain expression is that of a phrase that it reads as. -/
theorem exists_reads (legible : tables.Legible) (sound : tables.Sound)
    {context : Validity.Context} (inTables : context.tables = tables) {visible : List VariableId}
    {expr : Expr} {text : String} (checked : Validity.checkExpr context visible expr = .ok ())
    (plain : expr.Every tables.Plain) (written : tables.exprText expr = .ok text) :
    ∃ phrase, tables.ReadsAs expr phrase ∧ phrase.text = text.toList := by
  subst inTables
  induction expr generalizing text with
  | const value =>
    obtain rfl := Except.ok.inj written
    obtain ⟨phrase, literal, spelled⟩ := value.exists_literal
    rw [Constant.toList_text]
    cases sign : value.negative with
    | false => exact ⟨phrase, .const literal sign spelled, by simp [spelled]⟩
    | true => exact ⟨_, .negative literal sign spelled, by simp [Phrase.text, Sign.char, spelled]⟩
  | var id =>
    obtain ⟨entry, known, same⟩ := Outcome.bind_eq_ok_iff.mp (show _ >>= _ = _ from written)
    obtain rfl := Except.ok.inj same
    exact ⟨_, .var (legible.vars (variableAt_eq_ok_iff.mp known)) written,
      by simp [Phrase.text, IsWord.word]⟩
  | field base position inBase =>
    obtain ⟨unsigned, plainBase⟩ := Expr.every_field.mp plain
    obtain ⟨baseOk, -⟩ := Validity.checkExpr_field_iff.mp checked
    simp only [exprText, Outcome.bind_eq_ok_iff] at written
    obtain ⟨type, typed, field, selected, baseText, baseWritten, same⟩ := written
    obtain rfl := Except.ok.inj same
    obtain ⟨front, ofBase, spelled⟩ := inBase baseOk plainBase baseWritten
    obtain ⟨fields, ofType, known⟩ := Outcome.bind_eq_ok_iff.mp selected
    obtain ⟨name, isStruct⟩ := fieldsOf_eq_ok_iff.mp ofType
    have isOpen := ofBase.isOpen (sound.isConst_of_typed typed isStruct (.inl rfl)) unsigned
    refine ⟨_, .field (legible.fields isStruct (found_eq_ok_iff.mp known)) ofBase isOpen typed
      selected, ?_⟩
    simp [text_snoc isOpen, Phrase.text, spelled, IsWord.word]
  | index base position inBase inPosition =>
    obtain ⟨unsigned, plainBase, plainPosition⟩ := Expr.every_index.mp plain
    obtain ⟨baseOk, positionOk, type, entry, element, typed, known, isElement⟩ :=
      Validity.checkExpr_index_iff.mp checked
    simp only [exprText, Outcome.bind_eq_ok_iff] at written
    obtain ⟨baseText, baseWritten, positionText, positionWritten, same⟩ := written
    obtain rfl := Except.ok.inj same
    obtain ⟨front, ofBase, spelled⟩ := inBase baseOk plainBase baseWritten
    obtain ⟨inner, ofPosition, innerSpelled⟩ := inPosition positionOk plainPosition positionWritten
    have isOpen := ofBase.isOpen (sound.isConst_of_typed typed known (.inr (by simp [isElement])))
      unsigned
    refine ⟨_, .index ofBase isOpen ofPosition, ?_⟩
    simp [text_snoc isOpen, Phrase.text, spelled, innerSpelled]
  | unary op operand inOperand =>
    simp only [exprText, Outcome.bind_eq_ok_iff] at written
    obtain ⟨operandText, operandWritten, same⟩ := written
    obtain rfl := Except.ok.inj same
    obtain ⟨inner, ofOperand, spelled⟩ := inOperand (Validity.checkExpr_unary.symm.trans checked)
      (Expr.every_unary.mp plain).2 operandWritten
    refine ⟨_, .unary ofOperand, ?_⟩
    rw [Phrase.text, spelled, String.toList_append]
    cases op <;> rfl
  | binary op left right inLeft inRight =>
    obtain ⟨-, plainLeft, plainRight⟩ := Expr.every_binary.mp plain
    obtain ⟨leftOk, rightOk⟩ := Validity.checkExpr_binary_iff.mp checked
    simp only [exprText, Outcome.bind_eq_ok_iff] at written
    obtain ⟨leftText, leftWritten, rightText, rightWritten, same⟩ := written
    obtain rfl := Except.ok.inj same
    obtain ⟨before, ofLeft, leftSpelled⟩ := inLeft leftOk plainLeft leftWritten
    obtain ⟨after, ofRight, rightSpelled⟩ := inRight rightOk plainRight rightWritten
    refine ⟨_, .binary ofLeft ofRight, ?_⟩
    simp [Phrase.text, leftSpelled, rightSpelled]
  | construct type args inArgs =>
    obtain ⟨-, plainArgs⟩ := Expr.every_construct.mp plain
    have argsOk := Validity.checkExpr_construct_iff.mp checked
    simp only [exprText, Outcome.bind_eq_ok_iff] at written
    obtain ⟨made, spelled, texts, argsWritten, same⟩ := written
    obtain rfl := Except.ok.inj same
    obtain ⟨phrase, isType⟩ := exists_typePhrase legible spelled
    obtain ⟨inner, ofArgs, argsSpelled⟩ := exists_readsAll argsWritten fun arg member text =>
      inArgs arg member (argsOk arg member) (plainArgs arg member)
    refine ⟨_, .construct isType spelled ofArgs, ?_⟩
    simp [text_snoc isType.isOpen, isType.text_eq, Phrase.text, text_argsOf, argsSpelled]
  | call callee args inArgs =>
    obtain ⟨-, plainArgs⟩ := Expr.every_call.mp plain
    obtain ⟨argsOk, -⟩ := Validity.checkExpr_call_iff.mp checked
    simp only [exprText, Outcome.bind_eq_ok_iff] at written
    obtain ⟨name, named, texts, argsWritten, same⟩ := written
    obtain rfl := Except.ok.inj same
    obtain ⟨function, known, ofName⟩ := Outcome.bind_eq_ok_iff.mp named
    obtain rfl := Except.ok.inj ofName
    obtain ⟨inner, ofArgs, argsSpelled⟩ := exists_readsAll argsWritten fun arg member text =>
      inArgs arg member (argsOk arg member) (plainArgs arg member)
    refine ⟨_, .call (legible.functions (functionAt_eq_ok_iff.mp known)) named ofArgs, ?_⟩
    simp [text_snoc open_word, Phrase.text, text_argsOf, argsSpelled, IsWord.word]
  | sample sampler coordinates inSampler inCoordinates =>
    obtain ⟨-, plainSampler, plainCoordinates⟩ := Expr.every_sample.mp plain
    obtain ⟨samplerOk, coordinatesOk⟩ := Validity.checkExpr_sample_iff.mp checked
    simp only [exprText, Outcome.bind_eq_ok_iff] at written
    obtain ⟨samplerText, samplerWritten, coordinatesText, coordinatesWritten, same⟩ := written
    obtain rfl := Except.ok.inj same
    obtain ⟨first, ofSampler, samplerSpelled⟩ := inSampler samplerOk plainSampler samplerWritten
    obtain ⟨second, ofCoordinates, coordinatesSpelled⟩ :=
      inCoordinates coordinatesOk plainCoordinates coordinatesWritten
    refine ⟨_, .sample ofSampler ofCoordinates, ?_⟩
    simp [text_snoc open_word, Phrase.text, text_argsOf, samplerSpelled, coordinatesSpelled,
      IsWord.word]
  | addressOf operand inOperand =>
    simp only [exprText, Outcome.bind_eq_ok_iff] at written
    obtain ⟨operandText, operandWritten, same⟩ := written
    obtain rfl := Except.ok.inj same
    obtain ⟨inner, ofOperand, spelled⟩ :=
      inOperand (Validity.checkExpr_addressOf.symm.trans checked) (Expr.every_addressOf.mp plain).2
        operandWritten
    refine ⟨_, .addressOf ofOperand, ?_⟩
    simp [Phrase.text, Sign.char, spelled]

end Tables

end ShaderPipeline
