import Mathlib.Algebra.Order.Field.Power
import Mathlib.Algebra.Order.Ring.Rat
import Mathlib.Order.Monotone.Basic
import Mathlib.Tactic.FieldSimp
import Mathlib.Tactic.Linarith
import Mathlib.Tactic.Ring
import ShaderPipeline.Decimal.Single

/-!
# Shortest decimals read back

The decimal that stands for a number lies in the interval of what rounds to the
number. The intervals of neighbouring single-precision numbers meet in one point,
which belongs to the one of the two whose mantissa is even. So no decimal stands
for two numbers.
-/

namespace ShaderPipeline.Decimal

/-- The number that a numeral stands for. -/
def Numeral.value (numeral : Numeral) : ℚ := numeral.digits * 10 ^ numeral.exponent

namespace Binary

/-! ## Intervals -/

/-- A quarter of the unit in the last place. -/
def quarter (binary : Binary) : ℚ := 2 ^ (binary.exponent - 2)

/-- The lower end of what rounds to a number. -/
def low (binary : Binary) : ℚ :=
  ((4 * binary.mantissa - if binary.narrowBelow then 1 else 2 : ℕ) : ℚ) * binary.quarter

/-- The upper end of what rounds to a number. -/
def high (binary : Binary) : ℚ := ((4 * binary.mantissa + 2 : ℕ) : ℚ) * binary.quarter

/-- What rounds to a number. The ends do so if the mantissa is even. -/
def Contains (binary : Binary) (point : ℚ) : Prop :=
  if binary.mantissa % 2 = 0 then binary.low ≤ point ∧ point ≤ binary.high
  else binary.low < point ∧ point < binary.high

variable {binary : Binary}

/-- A quarter of the unit in the last place is positive. -/
theorem quarter_pos : 0 < binary.quarter := by
  unfold quarter
  positivity

/-- What rounds to a number is not below the lower end. -/
theorem Contains.low_le {point : ℚ} (inside : binary.Contains point) : binary.low ≤ point := by
  unfold Contains at inside
  split at inside
  · exact inside.1
  · exact inside.1.le

/-- Nor is it above the upper end. -/
theorem Contains.le_high {point : ℚ} (inside : binary.Contains point) : point ≤ binary.high := by
  unfold Contains at inside
  split at inside
  · exact inside.2
  · exact inside.2.le

/-- Only an even number has an end in its interval. -/
theorem Contains.even_of_end {point : ℚ} (inside : binary.Contains point)
    (atEnd : point = binary.low ∨ point = binary.high) : binary.mantissa % 2 = 0 := by
  by_contra odd
  rw [Contains, if_neg odd] at inside
  rcases atEnd with rfl | rfl
  · exact lt_irrefl _ inside.1
  · exact lt_irrefl _ inside.2

/-- A number itself rounds to it. -/
theorem contains_self (positive : 0 < binary.mantissa) :
    binary.Contains (4 * binary.mantissa * binary.quarter) := by
  have below : binary.low < 4 * binary.mantissa * binary.quarter := by
    refine mul_lt_mul_of_pos_right ?_ quarter_pos
    have : (4 * binary.mantissa - if binary.narrowBelow then 1 else 2) < 4 * binary.mantissa := by
      split <;> omega
    exact_mod_cast this
  have above : 4 * binary.mantissa * binary.quarter < binary.high := by
    refine mul_lt_mul_of_pos_right ?_ quarter_pos
    push_cast
    linarith
  unfold Contains
  split
  · exact ⟨below.le, above.le⟩
  · exact ⟨below, above⟩

/-! ## Grids -/

/-- The two numbers of a grid have the quotient that they are for. -/
theorem quarterOn_eq (place : Int) : ((binary.quarterOn place).1 : ℚ) * 10 ^ place =
    (binary.quarterOn place).2 * binary.quarter := by
  have split (base : ℚ) (positive : base ≠ 0) (power : Int) :
      base ^ power.toNat = base ^ power * base ^ (-power).toNat := by
    rw [← zpow_natCast, ← zpow_natCast, ← zpow_add₀ positive]
    congr 1
    omega
  simp only [quarterOn, quarter, Nat.pow_eq]
  push_cast
  rw [split 2 (by norm_num) (binary.exponent - 2), split 10 (by norm_num) place]
  ring

/-- Scaling to a grid divides by a positive number. -/
theorem divisor_pos (place : Int) : 0 < (binary.quarterOn place).2 :=
  Nat.mul_pos (Nat.pow_pos (by decide)) (Nat.pow_pos (by decide))

/-- One scale turns the integers that are compared on a grid into the numbers that they are for. -/
theorem exists_scale (binary : Binary) (place : Int) : ∃ scale : ℚ, 0 < scale ∧
    (∀ quarters : ℕ, ((quarters * (binary.quarterOn place).1 : ℕ) : ℚ) * scale =
      quarters * binary.quarter) ∧
    ∀ steps : ℕ, ((steps * (binary.quarterOn place).2 : ℕ) : ℚ) * scale = steps * 10 ^ place := by
  have divisor : (0 : ℚ) < (binary.quarterOn place).2 := by exact_mod_cast divisor_pos place
  have step : (0 : ℚ) < 10 ^ place := by positivity
  refine ⟨10 ^ place / (binary.quarterOn place).2, div_pos step divisor, fun quarters => ?_,
    fun steps => ?_⟩
  · push_cast
    rw [mul_div_assoc', div_eq_iff divisor.ne', mul_assoc, quarterOn_eq]
    ring
  · push_cast
    rw [mul_div_assoc', div_eq_iff divisor.ne']
    ring

/-- The check on a grid is whether the point rounds to the number. -/
theorem readsBack_iff {place : Int} {count : Nat} :
    binary.readsBack place count = true ↔ binary.Contains (count * 10 ^ place) := by
  obtain ⟨scale, positive, quarters, steps⟩ := binary.exists_scale place
  have lt (first second : ℕ) : first < second ↔ (first : ℚ) * scale < second * scale := by
    rw [mul_lt_mul_iff_left₀ positive, Nat.cast_lt]
  have le (first second : ℕ) : first ≤ second ↔ (first : ℚ) * scale ≤ second * scale := by
    rw [mul_le_mul_iff_left₀ positive, Nat.cast_le]
  unfold readsBack Contains low high
  generalize binary.quarterOn place = grid at quarters steps
  obtain ⟨factor, divisor⟩ := grid
  dsimp only at quarters steps ⊢
  split
  · simp only [Bool.and_eq_true, decide_eq_true_eq, le, quarters, steps]
  · simp only [Bool.and_eq_true, decide_eq_true_eq, lt, quarters, steps]

/-- A point that is found on a grid rounds to the number. -/
theorem contains_of_pointOn? {place : Int} {digits : Nat}
    (found : binary.pointOn? place = some digits) : binary.Contains (digits * 10 ^ place) := by
  rw [← readsBack_iff]
  unfold pointOn? at found
  dsimp only at found
  split at found
  case h_1 below above =>
    obtain rfl := Option.some.inj found
    split
    · exact below
    · exact above
  case h_2 below _ =>
    obtain rfl := Option.some.inj found
    exact below
  case h_3 _ above =>
    obtain rfl := Option.some.inj found
    exact above
  case h_4 => cases found

/-- What is found on the way to a grid that has the number on it reads back. -/
theorem contains_shortestFrom (positive : 0 < binary.mantissa) {tries : Nat} {place : Int}
    (exact : (binary.quarterOn (place - tries)).2 ∣
      4 * binary.mantissa * (binary.quarterOn (place - tries)).1) :
    binary.Contains (binary.shortestFrom tries place).value := by
  induction tries generalizing place with
  | zero =>
    simp only [Nat.cast_zero, sub_zero] at exact
    obtain ⟨scale, -, quarters, steps⟩ := binary.exists_scale place
    have same : (binary.floorOn place : ℚ) * 10 ^ place = 4 * binary.mantissa * binary.quarter := by
      rw [← steps, floorOn, Nat.div_mul_cancel exact, quarters]
      push_cast
      ring
    rw [shortestFrom, Numeral.value, same]
    exact contains_self positive
  | succ tries inductionHypothesis =>
    rw [shortestFrom]
    split
    case h_1 digits found => exact contains_of_pointOn? found
    case h_2 =>
      refine inductionHypothesis ?_
      convert exact using 2 <;> push_cast <;> ring_nf

end Binary

/-! ## Single-precision numbers -/

namespace Binary

/-- The positive number with the given exponent and fraction bits, read as one integer. -/
def ofCode (code : Nat) : Binary := ofSingle (code / fractionRange) (code % fractionRange)

/-- The mantissa of a number is even exactly if its bits are, read as one integer. -/
theorem mantissa_ofCode (code : Nat) : (ofCode code).mantissa % 2 = code % 2 := by
  unfold ofCode ofSingle fractionRange
  split <;> dsimp only <;> omega

/-- What rounds to a number begins where what rounds to the one before it ends. -/
theorem low_ofSingle_succ (exponent fraction : Nat) :
    (ofSingle exponent (fraction + 1)).low = (ofSingle exponent fraction).high := by
  unfold ofSingle low high quarter
  split
  · congr 2
  · simp only [Nat.add_one_ne_zero, false_and, decide_false, Bool.false_eq_true, if_false]
    congr 2

/-- The first number of an exponent comes after the last one of the exponent before. -/
theorem low_ofSingle_zero (exponent : Nat) : (ofSingle (exponent + 1) 0).low =
    (ofSingle exponent (fractionRange - 1)).high := by
  unfold ofSingle low high quarter
  rcases Nat.eq_zero_or_pos exponent with rfl | normal
  · norm_num [fractionRange]
  · have shift : (2 : ℚ) ^ ((exponent : ℤ) + 1 - 150 - 2) = 2 * 2 ^ ((exponent : ℤ) - 150 - 2) := by
      rw [← zpow_one_add₀ (by norm_num)]
      congr 1
      ring
    simp only [Nat.add_one_ne_zero, if_false, normal.ne', fractionRange, true_and, Nat.cast_add,
      Nat.cast_one, shift, Nat.lt_add_left_iff_pos, normal, decide_true, if_true]
    norm_num
    ring

/-- The intervals of neighbouring numbers meet. -/
theorem low_ofCode_succ (code : Nat) : (ofCode (code + 1)).low = (ofCode code).high := by
  unfold ofCode
  -- Either only the fraction changes or the next exponent begins.
  rcases Nat.lt_or_ge (code % fractionRange + 1) fractionRange with inside | last
  · have sameExponent : (code + 1) / fractionRange = code / fractionRange := by
      unfold fractionRange at *
      omega
    have next : (code + 1) % fractionRange = code % fractionRange + 1 := by
      unfold fractionRange at *
      omega
    rw [sameExponent, next, low_ofSingle_succ]
  · have nextExponent : (code + 1) / fractionRange = code / fractionRange + 1 := by
      unfold fractionRange at *
      omega
    have first : (code + 1) % fractionRange = 0 := by
      unfold fractionRange at *
      omega
    have largest : code % fractionRange = fractionRange - 1 := by
      unfold fractionRange at *
      omega
    rw [nextExponent, first, largest, low_ofSingle_zero]

/-- There is room for what rounds to a number. -/
theorem low_lt_high (binary : Binary) : binary.low < binary.high := by
  refine mul_lt_mul_of_pos_right ?_ quarter_pos
  have : (4 * binary.mantissa - if binary.narrowBelow then 1 else 2) < 4 * binary.mantissa + 2 := by
    omega
  exact_mod_cast this

/-- The lower ends have the order of the numbers. -/
theorem strictMono_low : StrictMono fun code => (ofCode code).low :=
  strictMono_nat_of_lt_succ fun code => (low_lt_high _).trans_eq (low_ofCode_succ code).symm

/-- No point rounds to two numbers. -/
theorem code_eq_of_contains {first second : Nat} {point : ℚ}
    (inFirst : (ofCode first).Contains point) (inSecond : (ofCode second).Contains point) :
    first = second := by
  have notLess {first second : Nat} (inFirst : (ofCode first).Contains point)
      (inSecond : (ofCode second).Contains point) : ¬ first < second := by
    intro less
    have upper : point ≤ (ofCode (first + 1)).low := inFirst.le_high.trans_eq
      (low_ofCode_succ first).symm
    have between : (ofCode (first + 1)).low ≤ (ofCode second).low :=
      strictMono_low.monotone less
    have lower : (ofCode second).low ≤ point := inSecond.low_le
    -- So the two are neighbours that share an end, and both would have to be even.
    have neighbours : first + 1 = second :=
      strictMono_low.injective (le_antisymm between (lower.trans upper))
    have firstEven := inFirst.even_of_end (.inr (le_antisymm inFirst.le_high
      ((low_ofCode_succ first).symm.trans_le (between.trans lower))))
    have secondEven := inSecond.even_of_end (.inl (le_antisymm (upper.trans between) lower))
    rw [mantissa_ofCode] at firstEven secondEven
    omega
  exact le_antisymm (not_lt.mp (notLess inSecond inFirst)) (not_lt.mp (notLess inFirst inSecond))

/-- The finest grid has every number on it whose unit in the last place is not too small. -/
theorem exact_on_finest {exponent : Int} (coarse : -149 ≤ exponent) (mantissa : Nat)
    (narrowBelow : Bool) :
    ((Binary.mk mantissa exponent narrowBelow).quarterOn (39 - (188 : ℕ))).2 ∣
      4 * mantissa * ((Binary.mk mantissa exponent narrowBelow).quarterOn (39 - (188 : ℕ))).1 := by
  have divides : 2 ^ (-(exponent - 2)).toNat ∣ 4 * 10 ^ 149 :=
    (Nat.pow_dvd_pow 2 (by omega : (-(exponent - 2)).toNat ≤ 151)).trans ⟨5 ^ 149, by norm_num⟩
  change 2 ^ (-(exponent - 2)).toNat * 10 ^ 0 ∣
    4 * mantissa * (2 ^ (exponent - 2).toNat * 10 ^ 149)
  rw [pow_zero, mul_one]
  exact divides.trans ⟨mantissa * 2 ^ (exponent - 2).toNat, by ring⟩

/-- The decimal of a positive single-precision number rounds to it. -/
theorem contains_shortestSingle {code : Nat} (positive : 0 < code) :
    (ofCode code).Contains
      (shortestSingle (code / fractionRange) (code % fractionRange)).value := by
  refine contains_shortestFrom ?_ ?_
  · unfold ofCode ofSingle fractionRange
    split <;> dsimp only <;> omega
  · unfold ofCode ofSingle
    split
    · exact exact_on_finest le_rfl _ _
    case isFalse normal =>
      refine exact_on_finest ?_ _ _
      unfold fractionRange at *
      omega

end Binary

end ShaderPipeline.Decimal
