import ShaderPipeline.Decimal.Shortest

/-!
# Writing decimals

A decimal is written with a point or with an exponent, as the place of its
leading digit decides. A positional text always has a digit after the point; an
exponent has neither a plus sign nor leading zeros.
-/

namespace ShaderPipeline.Decimal

/-- The places of the leading digit for which a decimal is written positionally. -/
structure Style where
  first : Int
  last : Int

/-- A run of zeros. -/
def zeros (count : Nat) : List Char := List.replicate count '0'

/-- The digits with a point after `whole` of them, filled up with zeros on either side. -/
def positional (digits : List Char) (whole : Int) : List Char :=
  if whole ≤ 0 then
    '0' :: '.' :: (zeros (-whole).toNat ++ digits)
  else if digits.length ≤ whole.toNat then
    digits ++ zeros (whole.toNat - digits.length) ++ ['.', '0']
  else
    digits.take whole.toNat ++ '.' :: digits.drop whole.toNat

/-- The digits with a point after the first one, and the place of that digit. -/
def scientific (digits : List Char) (place : Int) : List Char :=
  let fraction := digits.drop 1
  digits.take 1 ++ (if fraction.isEmpty then [] else '.' :: fraction) ++
    'e' :: (toString place).toList

/-- The text of a decimal. -/
def Style.write (style : Style) (value : Numeral) : String :=
  let digits := Nat.toDigits 10 value.digits
  let place := value.exponent + digits.length - 1
  if style.first ≤ place && place ≤ style.last then
    String.ofList (positional digits (place + 1))
  else
    String.ofList (scientific digits place)

end ShaderPipeline.Decimal
