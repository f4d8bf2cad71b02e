import ShaderPipeline.Proofs.Decimal.Writing
import ShaderPipeline.Proofs.Text.Phrases

/-!
# Constants as phrases

The text of a constant is its magnitude, a figure or a word, perhaps after a minus
sign, and the two tell the constant unless it is a float that is not a number. A float
has a point, an exponent or a word of its own, and an unsigned integer its mark, so the
kinds of constants are told apart as well.
-/

namespace ShaderPipeline

open Phrase

namespace Constant

/-! ## Signs -/

/-- Whether the text of a constant begins with a minus sign. -/
def negative : Constant → Bool
  | float bits => Decimal.codeOf bits ≤ Decimal.infinity && Decimal.signed bits
  | int value => value.toInt < 0
  | uint _ => false
  | bool _ => false

/-- A float that is not a number. -/
def isNaN : Constant → Bool
  | float bits => Decimal.infinity < Decimal.codeOf bits
  | int _ | uint _ | bool _ => false

/-- Whether the text of another constant is the text of this one after a minus sign. -/
def hasNegative : Constant → Bool
  | float bits => Decimal.codeOf bits ≤ Decimal.infinity && !Decimal.signed bits
  | int value => 0 < value.toInt
  | uint _ => false
  | bool _ => false

/-- The text of a constant without its sign. -/
def magnitude : Constant → List Char
  | float bits =>
    if Decimal.infinity < Decimal.codeOf bits then ['N', 'a', 'N']
    else Decimal.textOf (Decimal.codeOf bits)
  | int value => Nat.toDigits 10 value.toInt.natAbs
  | uint value => Nat.toDigits 10 value.toNat ++ ['u']
  | bool value => if value then ['t', 'r', 'u', 'e'] else ['f', 'a', 'l', 's', 'e']

/-- An integer is written as its digits, after a minus sign if it is negative. -/
theorem toString_toList (value : ℤ) : (toString value).toList =
    if value < 0 then '-' :: Nat.toDigits 10 value.natAbs else Nat.toDigits 10 value.natAbs := by
  rw [Int.toString_eq_repr]
  cases value with
  | ofNat number => exact Nat.toList_repr
  | negSucc number =>
    change ("-" ++ Nat.repr (number + 1)).toList = _
    rw [String.toList_append, Nat.toList_repr, if_pos (Int.negSucc_lt_zero number)]
    simp

/-- The text of a constant is its magnitude, after a minus sign if it is negative. -/
theorem toList_text (value : Constant) : value.text.toList =
    if value.negative then '-' :: value.magnitude else value.magnitude := by
  cases value with
  | float bits =>
    rw [text, Decimal.singleText_eq]
    unfold negative magnitude
    by_cases none : Decimal.infinity < Decimal.codeOf bits
    · simp [none]
    · simp [none, Nat.not_lt.mp none]
  | int value =>
    rw [text, toString_toList]
    simp [negative, magnitude]
  | uint value =>
    rw [text, String.toList_append, Nat.toString_eq_ofList_toDigits, String.toList_ofList]
    rfl
  | bool value => cases value <;> rfl

/-! ## Kinds -/

/-- What magnitudes are made of. -/
inductive Kind where
  | float
  | int
  | uint
  | bool
deriving DecidableEq

/-- What the magnitude of a constant is made of. -/
def kind : Constant → Kind
  | float _ => .float
  | int _ => .int
  | uint _ => .uint
  | bool _ => .bool

/-- The kind of constant that has a magnitude. -/
def kindOf (magnitude : List Char) : Kind :=
  if magnitude ∈ [['t', 'r', 'u', 'e'], ['f', 'a', 'l', 's', 'e']] then .bool
  else if magnitude ∈ [['i', 'n', 'f'], ['N', 'a', 'N']] ∨ '.' ∈ magnitude ∨ 'e' ∈ magnitude then
    .float
  else if 'u' ∈ magnitude then .uint
  else .int

/-- A text that begins with a digit is none of the words. -/
theorem not_mem_of_digit {magnitude : List Char} {words : List (List Char)}
    (first : ∃ c rest, magnitude = c :: rest ∧ c.isDigit = true)
    (noDigit : ∀ word ∈ words, word.head?.any Char.isDigit = false) : magnitude ∉ words := by
  obtain ⟨c, rest, rfl, isDigit⟩ := first
  intro member
  have : c.isDigit = false := noDigit _ member
  rw [isDigit] at this
  cases this

/-- The digits of a number begin with a digit. -/
theorem first_toDigits (number : Nat) (rest : List Char) :
    ∃ c others, Nat.toDigits 10 number ++ rest = c :: others ∧ c.isDigit = true := by
  obtain ⟨c, others, begins, isDigit⟩ := (Decimal.digits_toDigits number).exists_first
    Nat.toDigits_ne_nil
  exact ⟨c, others ++ rest, by rw [begins, List.cons_append], isDigit⟩

/-- They hold nothing but digits. -/
theorem not_mem_toDigits {c : Char} (noDigit : c.isDigit = false) (number : Nat) :
    c ∉ Nat.toDigits 10 number := by
  intro inside
  rw [Decimal.digits_toDigits number c inside] at noDigit
  cases noDigit

/-- The magnitude of a finite float begins with a digit and has a point or an exponent. -/
theorem magnitude_float (bits : UInt32) :
    magnitude (.float bits) ∈ [['i', 'n', 'f'], ['N', 'a', 'N']] ∨
      Decimal.IsFigure (magnitude (.float bits)) := by
  simp only [magnitude]
  rcases Nat.lt_trichotomy (Decimal.codeOf bits) Decimal.infinity with finite | infinite | none
  · rw [if_neg (Nat.lt_asymm finite)]
    exact .inr (Decimal.isFigure_textOf finite)
  · rw [infinite, if_neg (Nat.lt_irrefl _)]
    exact .inl (by decide)
  · rw [if_pos none]
    exact .inl (by decide)

/-- Digits with or without the mark of unsigned integers are not written like a float. -/
theorem kindOf_digits (number : Nat) {rest : List Char} (mark : rest = [] ∨ rest = ['u']) :
    kindOf (Nat.toDigits 10 number ++ rest) = if rest = [] then .int else .uint := by
  have noWord {words : List (List Char)}
      (noDigit : ∀ word ∈ words, word.head?.any Char.isDigit = false) :
      Nat.toDigits 10 number ++ rest ∉ words :=
    not_mem_of_digit (first_toDigits number rest) noDigit
  have noPoint : '.' ∉ Nat.toDigits 10 number := not_mem_toDigits rfl number
  have noExponent : 'e' ∉ Nat.toDigits 10 number := not_mem_toDigits rfl number
  have noMark : 'u' ∉ Nat.toDigits 10 number := not_mem_toDigits rfl number
  rw [kindOf, if_neg (noWord (by decide)), if_neg]
  · rcases mark with rfl | rfl <;> simp [noMark]
  · rintro (word | point | exponent)
    · exact noWord (by decide) word
    · rcases mark with rfl | rfl <;> simp [noPoint] at point
    · rcases mark with rfl | rfl <;> simp [noExponent] at exponent

/-- The magnitude of a constant tells its kind. -/
theorem kindOf_magnitude (value : Constant) : kindOf value.magnitude = value.kind := by
  cases value with
  | float bits =>
    rcases magnitude_float bits with word | figure
    · simp only [List.mem_cons, List.not_mem_nil, or_false] at word
      rcases word with same | same <;> rw [same] <;> rfl
    · rw [kindOf, if_neg (not_mem_of_digit figure.first (by decide)), if_pos (.inr figure.mark)]
      rfl
  | int value =>
    have kind := kindOf_digits value.toInt.natAbs (.inl rfl)
    rwa [List.append_nil] at kind
  | uint value => exact kindOf_digits value.toNat (.inr rfl)
  | bool value => cases value <;> rfl

/-! ## Constants from their texts -/

/-- The digits tell the number. -/
theorem toDigits_inj {first second : Nat} (same : Nat.toDigits 10 first = Nat.toDigits 10 second) :
    first = second := by
  rw [← @Nat.ofDigitChars_ten_toDigits first, same, Nat.ofDigitChars_ten_toDigits]

/-- The magnitude and the sign tell a constant, unless it is not a number. -/
theorem magnitude_inj {first second : Constant} (isNumber : first.isNaN = false)
    (otherNumber : second.isNaN = false) (sameSign : first.negative = second.negative)
    (same : first.magnitude = second.magnitude) : first = second := by
  have sameKind : first.kind = second.kind := by
    rw [← kindOf_magnitude, same, kindOf_magnitude]
  cases first <;> cases second <;> try cases sameKind
  case float bits other =>
    simp only [isNaN, decide_eq_false_iff_not] at isNumber otherNumber
    simp only [magnitude, if_neg isNumber, if_neg otherNumber] at same
    have sameCode := Decimal.textOf_inj (Nat.not_lt.mp isNumber) (Nat.not_lt.mp otherNumber) same
    simp only [negative, Nat.not_lt.mp isNumber, Nat.not_lt.mp otherNumber, decide_true,
      Bool.true_and] at sameSign
    rw [Decimal.bits_ext sameSign sameCode]
  case int value other =>
    have sameSize : value.toInt.natAbs = other.toInt.natAbs := toDigits_inj same
    simp only [negative, decide_eq_decide] at sameSign
    have sameValue : value.toInt = other.toInt := by omega
    rw [Int32.toInt_inj.mp sameValue]
  case uint value other =>
    have sameNumber : value.toNat = other.toNat := toDigits_inj (List.append_cancel_right same)
    rw [UInt32.toNat_inj.mp sameNumber]
  case bool value other =>
    cases value <;> cases other <;> first | rfl | exact absurd same (by decide)

/-- A number that a negative one reads like without its sign has a negative. -/
theorem hasNegative_of_magnitude {first second : Constant} (isNumber : second.isNaN = false)
    (sign : first.negative = true) (otherSign : second.negative = false)
    (same : first.magnitude = second.magnitude) : second.hasNegative = true := by
  have sameKind : first.kind = second.kind := by rw [← kindOf_magnitude, same, kindOf_magnitude]
  cases first <;> cases second <;> try cases sameKind
  case float bits other =>
    simp only [isNaN, decide_eq_false_iff_not, Nat.not_lt] at isNumber
    simp only [negative, isNumber, decide_true, Bool.true_and] at otherSign
    simp [hasNegative, isNumber, otherSign]
  case int value other =>
    have sameSize : value.toInt.natAbs = other.toInt.natAbs := toDigits_inj same
    simp only [negative, decide_eq_true_eq, decide_eq_false_iff_not] at sign otherSign
    simp only [hasNegative, decide_eq_true_eq]
    omega
  case uint => cases sign
  case bool => cases sign

end Constant

/-! ## Phrases -/

namespace Phrase

/-- The words that constants are written as. -/
def literalWords : List String := ["inf", "NaN", "true", "false"]

/-- The phrases of constants without a sign. -/
inductive Literal : Phrase .whole → Prop
  | figure (number : Phrase.Figure) : Literal (.figure number)
  | word {name : Phrase.Word} (special : String.ofList name.text ∈ literalWords) :
      Literal (.word name .done)

end Phrase

/-- The magnitude of a constant is a figure or a word of its own. -/
theorem Constant.exists_literal (value : Constant) :
    ∃ phrase : Phrase .whole, phrase.Literal ∧ phrase.text = value.magnitude := by
  have words (word : Phrase.Word) (special : String.ofList word.text ∈ literalWords) :
      ∃ phrase : Phrase .whole, phrase.Literal ∧ phrase.text = word.text :=
    ⟨.word word .done, .word special, by simp [Phrase.text]⟩
  have figures {text : List Char} (first : ∃ c rest, text = c :: rest ∧ c.isDigit = true)
      (chars : ∀ c ∈ text, figureChar c = true) :
      ∃ phrase : Phrase .whole, phrase.Literal ∧ phrase.text = text :=
    ⟨.figure ⟨text, first, chars⟩, .figure _, rfl⟩
  have digits {number : List Char} (isDigits : Decimal.Digits number) :
      ∀ c ∈ number, figureChar c = true := fun c inside => by simp [figureChar, isDigits c inside]
  cases value with
  | float bits =>
    rcases magnitude_float bits with word | figure
    · simp only [List.mem_cons, List.not_mem_nil, or_false] at word
      rcases word with same | same <;> rw [same]
      · exact words ⟨['i', 'n', 'f'], ⟨_, _, rfl, rfl⟩, by decide⟩ (by decide)
      · exact words ⟨['N', 'a', 'N'], ⟨_, _, rfl, rfl⟩, by decide⟩ (by decide)
    · refine figures figure.first fun c inside => ?_
      rcases figure.chars c inside with digit | mark
      · simp [figureChar, digit]
      · simp only [List.mem_cons, List.not_mem_nil, or_false] at mark
        rcases mark with rfl | rfl | rfl <;> decide
  | int value =>
    have isDigits := Decimal.digits_toDigits value.toInt.natAbs
    exact figures (isDigits.exists_first Nat.toDigits_ne_nil) (digits isDigits)
  | uint value =>
    refine figures (first_toDigits value.toNat ['u']) fun c inside => ?_
    rcases List.mem_append.mp inside with digit | mark
    · exact digits (Decimal.digits_toDigits value.toNat) c digit
    · obtain rfl := List.mem_singleton.mp mark
      decide
  | bool value =>
    cases value with
    | true => exact words ⟨['t', 'r', 'u', 'e'], ⟨_, _, rfl, rfl⟩, by decide⟩ (by decide)
    | false => exact words ⟨['f', 'a', 'l', 's', 'e'], ⟨_, _, rfl, rfl⟩, by decide⟩ (by decide)

/-- A constant is written with characters of words and figures. -/
theorem Constant.not_mem_text (value : Constant) {c : Char}
    (other : (wordChar c || figureChar c) = false) : c ∉ value.text.toList := by
  have inMagnitude : ∀ c ∈ value.magnitude, (wordChar c || figureChar c) = true := by
    obtain ⟨phrase, literal, spelled⟩ := value.exists_literal
    rw [← spelled]
    cases literal with
    | figure number => exact fun c inside => by simp [number.chars c inside]
    | @word name =>
      intro c inside
      simp only [Phrase.text, List.append_nil] at inside
      simp [name.chars c inside]
  intro inside
  rw [toList_text] at inside
  split at inside
  case isTrue =>
    rcases List.mem_cons.mp inside with rfl | inside
    · cases other
    · exact absurd (inMagnitude c inside) (by simp [other])
  case isFalse => exact absurd (inMagnitude c inside) (by simp [other])

end ShaderPipeline
