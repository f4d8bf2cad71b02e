import ShaderPipeline.Decimal.Style

/-!
# Single-precision numbers as text

The 32-bit pattern of a number has a sign, eight bits of exponent and
twenty-three bits of fraction.
-/

namespace ShaderPipeline.Decimal

/-- How many values the fraction bits have. -/
def fractionRange : Nat := 8388608

/-- How many values the exponent bits have. -/
def exponentRange : Nat := 256

/-- Numbers from a ten-thousandth up to ten to the sixteenth are written positionally. -/
def Style.single : Style := ⟨-4, 15⟩

/-- The finite positive number with the given exponent and fraction bits. -/
def Binary.ofSingle (exponent fraction : Nat) : Binary :=
  if exponent = 0 then
    ⟨fraction, -149, false⟩
  else
    ⟨fractionRange + fraction, (exponent : Int) - 150, fraction = 0 ∧ 1 < exponent⟩

/-- The shortest decimal of a finite positive single-precision number. It is below `10 ^ 39`, and
the grid `10 ^ -149` has every such number on it. -/
def shortestSingle (exponent fraction : Nat) : Numeral :=
  (Binary.ofSingle exponent fraction).shortestFrom 188 39

/-- The text of a number without its sign. -/
def magnitudeText (exponent fraction : Nat) : String :=
  if exponent = 255 then
    "inf"
  else if exponent = 0 ∧ fraction = 0 then
    "0.0"
  else
    Style.single.write (shortestSingle exponent fraction)

/-- The text of a single-precision number, given as its bits. -/
def singleText (bits : UInt32) : String :=
  let fraction := bits.toNat % fractionRange
  let exponent := bits.toNat / fractionRange % exponentRange
  let negative := bits.toNat / fractionRange / exponentRange = 1
  if exponent = 255 ∧ fraction ≠ 0 then
    "NaN"
  else if negative then
    "-" ++ magnitudeText exponent fraction
  else
    magnitudeText exponent fraction

end ShaderPipeline.Decimal
