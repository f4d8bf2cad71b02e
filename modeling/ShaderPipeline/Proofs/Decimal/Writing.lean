import Mathlib.Data.List.TakeWhile
import ShaderPipeline.Proofs.Decimal.ReadBack

/-!
# Written decimals are read back

A written decimal stands for the number that it was made from, whichever way it is
written. So the text of a single-precision number tells the number, unless it is
not a number at all.
-/

namespace ShaderPipeline.Decimal

/-! ## Reading -/

/-- The integer that digits stand for, perhaps after a minus sign. -/
def readInt : List Char → ℤ
  | '-' :: digits => -(Nat.ofDigitChars 10 digits 0 : ℕ)
  | digits => (Nat.ofDigitChars 10 digits 0 : ℕ)

/-- The number that digits stand for, with a point or an exponent or both. -/
def readDecimal (text : List Char) : ℚ :=
  let mantissa := text.takeWhile (· != 'e')
  let exponent := (text.dropWhile (· != 'e')).tail
  let whole := mantissa.takeWhile (· != '.')
  let fraction := (mantissa.dropWhile (· != '.')).tail
  (Nat.ofDigitChars 10 (whole ++ fraction) 0 : ℕ) * 10 ^ (readInt exponent - fraction.length)

/-- All characters are digits. -/
def Digits (text : List Char) : Prop := ∀ c ∈ text, c.isDigit = true

section Reading

variable {whole fraction exponent : List Char}

/-- Digits with digits behind them are digits. -/
theorem Digits.append (first : Digits whole) (second : Digits fraction) :
    Digits (whole ++ fraction) :=
  fun c inside => (List.mem_append.mp inside).elim (first c) (second c)

/-- Zeros are digits. -/
theorem digits_zeros (count : Nat) : Digits (zeros count) := by
  intro c inside
  obtain rfl := List.eq_of_mem_replicate inside
  rfl

/-- A number is written with digits. -/
theorem digits_toDigits (number : Nat) : Digits (Nat.toDigits 10 number) :=
  fun _ inside => Nat.isDigit_of_mem_toDigits (by decide) (by decide) inside

/-- A digit differs from every character that is none. -/
theorem Digits.ne {c other : Char} (digits : Digits whole) (inside : c ∈ whole)
    (noDigit : other.isDigit = false) : (c != other) = true := by
  rw [bne_iff_ne]
  rintro rfl
  rw [digits c inside] at noDigit
  cases noDigit

/-- The text is empty or goes on with an exponent. -/
def Exponent (text : List Char) : Prop := text = [] ∨ ∃ digits, text = 'e' :: digits

/-- With a point, all digits are read as one integer, which the digits behind the point scale
down. -/
theorem readDecimal_point {exponent : List Char} (wholeDigits : Digits whole)
    (fractionDigits : Digits fraction) (isExponent : Exponent exponent) :
    readDecimal (whole ++ '.' :: (fraction ++ exponent)) =
      (Nat.ofDigitChars 10 (whole ++ fraction) 0 : ℕ) *
        10 ^ (readInt exponent.tail - fraction.length) := by
  have mantissaOnly : ∀ c ∈ whole ++ '.' :: fraction, (c != 'e') = true := by
    simp only [List.forall_mem_append, List.forall_mem_cons]
    exact ⟨fun c inside => wholeDigits.ne inside rfl, rfl,
      fun c inside => fractionDigits.ne inside rfl⟩
  have wholeOnly : ∀ c ∈ whole, (c != '.') = true := fun c inside => wholeDigits.ne inside rfl
  have split : whole ++ '.' :: (fraction ++ exponent) = (whole ++ '.' :: fraction) ++ exponent := by
    simp
  have mantissa : (whole ++ '.' :: (fraction ++ exponent)).takeWhile (· != 'e') =
      whole ++ '.' :: fraction := by
    rw [split, List.takeWhile_append_of_pos mantissaOnly]
    rcases isExponent with rfl | ⟨digits, rfl⟩ <;> simp
  have rest : (whole ++ '.' :: (fraction ++ exponent)).dropWhile (· != 'e') = exponent := by
    rw [split, List.dropWhile_append_of_pos mantissaOnly]
    rcases isExponent with rfl | ⟨digits, rfl⟩ <;> simp
  simp only [readDecimal, mantissa, rest, List.takeWhile_append_of_pos wholeOnly,
    List.dropWhile_append_of_pos wholeOnly]
  simp

/-- Without a point, only the exponent scales. -/
theorem readDecimal_whole {exponent : List Char} (wholeDigits : Digits whole)
    (isExponent : Exponent exponent) : readDecimal (whole ++ exponent) =
      (Nat.ofDigitChars 10 whole 0 : ℕ) * 10 ^ readInt exponent.tail := by
  have mantissaOnly : ∀ c ∈ whole, (c != 'e') = true := fun c inside => wholeDigits.ne inside rfl
  have wholeOnly : ∀ c ∈ whole, (c != '.') = true := fun c inside => wholeDigits.ne inside rfl
  have mantissa : (whole ++ exponent).takeWhile (· != 'e') = whole := by
    rw [List.takeWhile_append_of_pos mantissaOnly]
    rcases isExponent with rfl | ⟨digits, rfl⟩ <;> simp
  have rest : (whole ++ exponent).dropWhile (· != 'e') = exponent := by
    rw [List.dropWhile_append_of_pos mantissaOnly]
    rcases isExponent with rfl | ⟨digits, rfl⟩ <;> simp
  have noPoint : whole.dropWhile (· != '.') = [] := List.dropWhile_eq_nil_iff.mpr wholeOnly
  have allWhole : whole.takeWhile (· != '.') = whole := List.takeWhile_eq_self_iff.mpr wholeOnly
  simp only [readDecimal, mantissa, rest, noPoint, allWhole]
  simp

end Reading

/-- A written integer is read back. -/
theorem readInt_toString (value : ℤ) : readInt (toString value).toList = value := by
  cases value with
  | ofNat number =>
    have text : (toString (Int.ofNat number)).toList = Nat.toDigits 10 number := by
      rw [Int.toString_eq_repr]
      exact Nat.toList_repr
    rw [text]
    unfold readInt
    split
    case h_1 digits same =>
      have := digits_toDigits number '-' (by rw [same]; exact List.mem_cons_self)
      cases this
    case h_2 => simp
  | negSucc number =>
    have text : (toString (Int.negSucc number)).toList = '-' :: Nat.toDigits 10 (number + 1) := by
      rw [Int.toString_eq_repr]
      change ("-" ++ Nat.repr (number + 1)).toList = _
      simp [Nat.toList_repr]
    rw [text]
    simp only [readInt, Nat.ofDigitChars_ten_toDigits]
    rfl

/-! ## Writing -/

section Writing

variable {digits : List Char}

/-- Where the point is put, in the digits or in zeros around them, is how much they are scaled. -/
theorem readDecimal_positional (isDigits : Digits digits) (whole : ℤ) :
    readDecimal (positional digits whole) =
      (Nat.ofDigitChars 10 digits 0 : ℕ) * 10 ^ (whole - digits.length) := by
  unfold positional
  split
  case isTrue small =>
    have read := @readDecimal_point ['0'] (zeros (-whole).toNat ++ digits) []
      (digits_toDigits 0) ((digits_zeros _).append isDigits) (.inl rfl)
    rw [List.append_nil] at read
    have number : Nat.ofDigitChars 10 (['0'] ++ (zeros (-whole).toNat ++ digits)) 0 =
        Nat.ofDigitChars 10 digits 0 := by
      simp [zeros, Nat.ofDigitChars_cons, Nat.ofDigitChars_append, Nat.ofDigitChars_replicate_zero]
    refine read.trans ?_
    rw [number]
    congr 2
    simp [readInt, zeros]
    omega
  case isFalse large =>
    split
    case isTrue fits =>
      have read := @readDecimal_point (digits ++ zeros (whole.toNat - digits.length)) ['0'] []
        (isDigits.append (digits_zeros _)) (digits_toDigits 0) (.inl rfl)
      rw [List.append_nil] at read
      have number : Nat.ofDigitChars 10 (digits ++ zeros (whole.toNat - digits.length) ++ ['0']) 0 =
          10 ^ (whole.toNat - digits.length + 1) * Nat.ofDigitChars 10 digits 0 := by
        simp [zeros, Nat.ofDigitChars_cons, Nat.ofDigitChars_append,
          Nat.ofDigitChars_replicate_zero, pow_succ']
        ring
      have power : (whole - digits.length : ℤ) = (whole.toNat - digits.length + 1 : ℕ) - 1 := by
        omega
      rw [read, number, power, zpow_sub₀ (by norm_num), zpow_natCast]
      simp [readInt]
      ring
    case isFalse long =>
      have read := @readDecimal_point (digits.take whole.toNat) (digits.drop whole.toNat) []
        (fun c inside => isDigits c (List.mem_of_mem_take inside))
        (fun c inside => isDigits c (List.mem_of_mem_drop inside)) (.inl rfl)
      rw [List.append_nil, List.take_append_drop] at read
      rw [read, List.length_drop]
      congr 2
      simp [readInt]
      omega

/-- With one digit before the point, the exponent makes up for the others. -/
theorem readDecimal_scientific (isDigits : Digits digits) (some : digits ≠ []) (place : ℤ) :
    readDecimal (scientific digits place) =
      (Nat.ofDigitChars 10 digits 0 : ℕ) * 10 ^ (place + 1 - digits.length) := by
  obtain ⟨first, others, rfl⟩ := List.exists_cons_of_ne_nil some
  have isExponent : Exponent ('e' :: (toString place).toList) := .inr ⟨_, rfl⟩
  have firstDigit : Digits [first] := by simpa [Digits] using isDigits first List.mem_cons_self
  cases others with
  | nil =>
    have read := readDecimal_whole firstDigit isExponent
    simp only [List.tail_cons, readInt_toString] at read
    simpa [scientific] using read
  | cons second others =>
    have read := @readDecimal_point [first] (second :: others) _ firstDigit
      (fun c inside => isDigits c (List.mem_cons_of_mem _ inside)) isExponent
    simp only [List.tail_cons, readInt_toString] at read
    have same : scientific (first :: second :: others) place =
        [first] ++ '.' :: (second :: others ++ 'e' :: (toString place).toList) := by
      simp [scientific]
    rw [same, read]
    simp

end Writing

/-- A written decimal stands for the numeral that it was made from. -/
theorem readDecimal_write (style : Style) (numeral : Numeral) :
    readDecimal (style.write numeral).toList = numeral.value := by
  have isDigits := digits_toDigits numeral.digits
  unfold Style.write Numeral.value
  dsimp only
  split
  · rw [String.toList_ofList, readDecimal_positional isDigits, Nat.ofDigitChars_ten_toDigits]
    congr 2
    ring
  · rw [String.toList_ofList, readDecimal_scientific isDigits Nat.toDigits_ne_nil,
      Nat.ofDigitChars_ten_toDigits]
    congr 2
    ring

/-! ## The form of a written decimal -/

/-- A text that begins with a digit and has a point or an exponent, as every written decimal. -/
structure IsFigure (text : List Char) : Prop where
  first : ∃ digit rest, text = digit :: rest ∧ digit.isDigit = true
  chars : ∀ c ∈ text, c.isDigit = true ∨ c ∈ ['.', 'e', '-']
  mark : '.' ∈ text ∨ 'e' ∈ text

section Form

variable {whole fraction digits : List Char}

/-- Digits begin with a digit, if there is one. -/
theorem Digits.exists_first (isDigits : Digits digits) (some : digits ≠ []) :
    ∃ digit rest, digits = digit :: rest ∧ digit.isDigit = true := by
  obtain ⟨digit, rest, rfl⟩ := List.exists_cons_of_ne_nil some
  exact ⟨digit, rest, rfl, isDigits digit List.mem_cons_self⟩

/-- Digits with a point between them have the form of a decimal. -/
theorem isFigure_point (wholeDigits : Digits whole) (some : whole ≠ [])
    (fractionDigits : Digits fraction) : IsFigure (whole ++ '.' :: fraction) where
  first := by
    obtain ⟨digit, rest, rfl, isDigit⟩ := wholeDigits.exists_first some
    exact ⟨digit, _, rfl, isDigit⟩
  chars c inside := by
    rcases List.mem_append.mp inside with own | inside
    · exact .inl (wholeDigits c own)
    · rcases List.mem_cons.mp inside with rfl | own
      · exact .inr (by decide)
      · exact .inl (fractionDigits c own)
  mark := .inl (by simp)

/-- Digits with a point where it belongs have the form of a decimal. -/
theorem isFigure_positional (isDigits : Digits digits) (some : digits ≠ []) (whole : ℤ) :
    IsFigure (positional digits whole) := by
  unfold positional
  split
  case isTrue =>
    exact @isFigure_point ['0'] _ (digits_toDigits 0) (by decide) ((digits_zeros _).append isDigits)
  case isFalse large =>
    split
    · exact @isFigure_point _ ['0'] (isDigits.append (digits_zeros _)) (by simp [some])
        (digits_toDigits 0)
    · refine isFigure_point (fun c inside => isDigits c (List.mem_of_mem_take inside)) ?_
        (fun c inside => isDigits c (List.mem_of_mem_drop inside))
      simp only [ne_eq, List.take_eq_nil_iff, some, or_false]
      omega

/-- An integer is written with digits and perhaps a minus sign. -/
theorem chars_toString (place : ℤ) :
    ∀ c ∈ (toString place).toList, c.isDigit = true ∨ c = '-' := by
  rw [Int.toString_eq_repr]
  cases place with
  | ofNat number =>
    change ∀ c ∈ (Nat.repr number).toList, _
    rw [Nat.toList_repr]
    exact fun c inside => .inl (digits_toDigits number c inside)
  | negSucc number =>
    change ∀ c ∈ ("-" ++ Nat.repr (number + 1)).toList, _
    rw [String.toList_append, Nat.toList_repr]
    intro c inside
    rcases List.mem_cons.mp inside with rfl | own
    · exact .inr rfl
    · exact .inl (digits_toDigits (number + 1) c own)

/-- Digits with an exponent have the form of a decimal. -/
theorem isFigure_scientific (isDigits : Digits digits) (some : digits ≠ []) (place : ℤ) :
    IsFigure (scientific digits place) := by
  obtain ⟨digit, rest, rfl, isDigit⟩ := isDigits.exists_first some
  refine ⟨⟨digit, _, rfl, isDigit⟩, fun c inside => ?_, .inr (by simp [scientific])⟩
  simp only [scientific, List.mem_append, List.mem_cons] at inside
  rcases inside with (own | inFraction) | rfl | inPlace
  · exact .inl (isDigits c (List.mem_of_mem_take own))
  · split at inFraction
    · cases inFraction
    · rcases List.mem_cons.mp inFraction with rfl | own
      · exact .inr (by decide)
      · exact .inl (isDigits c (List.mem_of_mem_drop own))
  · exact .inr (by decide)
  · exact (chars_toString place c inPlace).imp_right fun minus => by simp [minus]

/-- Whatever the style, a written numeral has the form of a decimal. -/
theorem isFigure_write (style : Style) (numeral : Numeral) :
    IsFigure (style.write numeral).toList := by
  have isDigits := digits_toDigits numeral.digits
  unfold Style.write
  dsimp only
  split
  · rw [String.toList_ofList]
    exact isFigure_positional isDigits Nat.toDigits_ne_nil _
  · rw [String.toList_ofList]
    exact isFigure_scientific isDigits Nat.toDigits_ne_nil _

end Form

/-! ## Single-precision numbers -/

/-- The integer that the exponent and fraction bits of infinity make up. -/
def infinity : Nat := 255 * fractionRange

/-- The text of a number without its sign, whose bits are read as one integer. -/
def textOf (code : Nat) : List Char :=
  (magnitudeText (code / fractionRange) (code % fractionRange)).toList

/-- Infinity is written as a word. -/
theorem textOf_infinity : textOf infinity = ['i', 'n', 'f'] := rfl

/-- A finite number is written as its shortest decimal, and zero with a point. -/
theorem textOf_finite {code : Nat} (finite : code < infinity) : textOf code =
    if code = 0 then ['0', '.', '0']
    else (Style.single.write
      (shortestSingle (code / fractionRange) (code % fractionRange))).toList := by
  have exponent : code / fractionRange ≠ 255 := by
    unfold infinity at finite
    exact (Nat.div_lt_of_lt_mul (by rwa [Nat.mul_comm])).ne
  have zero : (code / fractionRange = 0 ∧ code % fractionRange = 0) ↔ code = 0 := by
    unfold fractionRange
    omega
  unfold textOf magnitudeText
  rw [if_neg exponent]
  split
  case isTrue none => rw [if_pos (zero.mp none)]; rfl
  case isFalse some => rw [if_neg (mt zero.mpr some)]

/-- A finite number is written as a decimal. -/
theorem isFigure_textOf {code : Nat} (finite : code < infinity) : IsFigure (textOf code) := by
  rw [textOf_finite finite]
  split
  · exact @isFigure_point ['0'] ['0'] (digits_toDigits 0) (by decide) (digits_toDigits 0)
  · exact isFigure_write _ _

/-- The text of a positive finite number stands for a decimal that rounds to it. -/
theorem contains_textOf {code : Nat} (positive : 0 < code) (finite : code < infinity) :
    (Binary.ofCode code).Contains (readDecimal (textOf code)) := by
  rw [textOf_finite finite, if_neg positive.ne', readDecimal_write]
  exact Binary.contains_shortestSingle positive

/-- The text of a positive number is read as a positive number. -/
theorem readDecimal_textOf_pos {code : Nat} (positive : 0 < code) (finite : code < infinity) :
    0 < readDecimal (textOf code) := by
  have zero : (Binary.ofCode 0).low = 0 := by
    simp [Binary.ofCode, Binary.ofSingle, Binary.low, fractionRange]
  calc 0 = (Binary.ofCode 0).low := zero.symm
    _ < (Binary.ofCode code).low := Binary.strictMono_low positive
    _ ≤ readDecimal (textOf code) := (contains_textOf positive finite).low_le

/-- The text of zero is read as zero. -/
theorem readDecimal_zero : readDecimal (textOf 0) = 0 := by
  have read := @readDecimal_point ['0'] ['0'] [] (digits_toDigits 0) (digits_toDigits 0) (.inl rfl)
  refine read.trans ?_
  simp [Nat.ofDigitChars_cons]

/-- Two numbers with the same text are the same. -/
theorem textOf_inj {first second : Nat} (inFirst : first ≤ infinity) (inSecond : second ≤ infinity)
    (same : textOf first = textOf second) : first = second := by
  -- A finite number begins with a digit, which infinity does not.
  have notInfinity {code : Nat} (finite : code < infinity) : textOf code ≠ textOf infinity := by
    intro same
    obtain ⟨digit, rest, begins, isDigit⟩ := (isFigure_textOf finite).first
    rw [same, textOf_infinity] at begins
    obtain ⟨rfl, -⟩ := List.cons.inj begins
    cases isDigit
  have notZero {code : Nat} (positive : 0 < code) (finite : code < infinity) :
      textOf code ≠ textOf 0 := by
    intro same
    have := readDecimal_textOf_pos positive finite
    rw [same, readDecimal_zero] at this
    exact lt_irrefl _ this
  rcases inFirst.lt_or_eq with firstFinite | rfl <;>
    rcases inSecond.lt_or_eq with secondFinite | rfl
  · rcases Nat.eq_zero_or_pos first with rfl | firstPositive <;>
      rcases Nat.eq_zero_or_pos second with rfl | secondPositive
    · rfl
    · exact absurd same.symm (notZero secondPositive secondFinite)
    · exact absurd same (notZero firstPositive firstFinite)
    · exact Binary.code_eq_of_contains (contains_textOf firstPositive firstFinite)
        (same ▸ contains_textOf secondPositive secondFinite)
  · exact absurd same (notInfinity firstFinite)
  · exact absurd same.symm (notInfinity secondFinite)
  · rfl

/-- The bits of a number besides its sign, read as one integer. -/
def codeOf (bits : UInt32) : Nat := bits.toNat % (exponentRange * fractionRange)

/-- Whether the sign bit is set. -/
def signed (bits : UInt32) : Bool := exponentRange * fractionRange ≤ bits.toNat

/-- The text of a number that is none, or of the number besides its sign, after its sign. -/
theorem singleText_eq (bits : UInt32) : (singleText bits).toList =
    if infinity < codeOf bits then ['N', 'a', 'N']
    else if signed bits then '-' :: textOf (codeOf bits) else textOf (codeOf bits) := by
  have bounded := bits.toNat_lt
  have exponent : bits.toNat / fractionRange % exponentRange = codeOf bits / fractionRange := by
    unfold codeOf fractionRange exponentRange
    omega
  have fraction : bits.toNat % fractionRange = codeOf bits % fractionRange := by
    unfold codeOf fractionRange exponentRange
    omega
  have none : (codeOf bits / fractionRange = 255 ∧ codeOf bits % fractionRange ≠ 0) ↔
      infinity < codeOf bits := by
    unfold codeOf infinity fractionRange exponentRange
    omega
  have negative : (bits.toNat / fractionRange / exponentRange = 1) ↔ signed bits = true := by
    unfold signed fractionRange exponentRange
    rw [decide_eq_true_eq]
    omega
  simp only [singleText, exponent, fraction, none, negative]
  split
  · rfl
  · split
    · rw [String.toList_append]
      rfl
    · rfl

/-- The sign and the rest make up the bits. -/
theorem bits_ext {first second : UInt32} (sameSign : signed first = signed second)
    (sameCode : codeOf first = codeOf second) : first = second := by
  have bounded := first.toNat_lt
  have otherBounded := second.toNat_lt
  apply UInt32.toNat_inj.mp
  unfold signed codeOf fractionRange exponentRange at *
  rw [decide_eq_decide] at sameSign
  omega

end ShaderPipeline.Decimal
