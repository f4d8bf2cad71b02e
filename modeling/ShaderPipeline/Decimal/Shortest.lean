/-!
# The shortest decimal that reads back

A binary floating-point number is the middle of the interval of all reals that
round to it. Of the decimals in that interval, the shortest one is found on the
coarsest decimal grid that has a point in the interval; of two points on that
grid the nearer one is taken, and the larger one if they are equally near.
-/

namespace ShaderPipeline.Decimal

/-- The positive number `mantissa · 2 ^ exponent`. `narrowBelow` says that the next smaller number
is only half as far away as the next larger one. -/
structure Binary where
  mantissa : Nat
  exponent : Int
  narrowBelow : Bool

/-- The number `digits · 10 ^ exponent`. -/
structure Numeral where
  digits : Nat
  exponent : Int
deriving DecidableEq

namespace Binary

/-- A quarter of the unit in the last place, counted in steps of the grid `10 ^ place`, is the
quotient of these two numbers. -/
def quarterOn (value : Binary) (place : Int) : Nat × Nat :=
  let shift := value.exponent - 2
  (Nat.pow 2 shift.toNat * Nat.pow 10 (-place).toNat,
   Nat.pow 2 (-shift).toNat * Nat.pow 10 place.toNat)

/-- Whether `count` steps of the grid `10 ^ place` round to the number. The ends of the interval
do so if the mantissa is even. -/
def readsBack (value : Binary) (place : Int) (count : Nat) : Bool :=
  let (factor, divisor) := value.quarterOn place
  let point := count * divisor
  let low := (4 * value.mantissa - if value.narrowBelow then 1 else 2) * factor
  let high := (4 * value.mantissa + 2) * factor
  if value.mantissa % 2 = 0 then low ≤ point && point ≤ high else low < point && point < high

/-- The number of whole steps of the grid `10 ^ place` in the number. -/
def floorOn (value : Binary) (place : Int) : Nat :=
  let (factor, divisor) := value.quarterOn place
  4 * value.mantissa * factor / divisor

/-- Whether the number is nearer to `count` steps of the grid than to `count + 1`. -/
def nearerBelow (value : Binary) (place : Int) (count : Nat) : Bool :=
  let (factor, divisor) := value.quarterOn place
  2 * (4 * value.mantissa * factor) < (2 * count + 1) * divisor

/-- The point of a grid that stands for the number, if one reads back. -/
def pointOn? (value : Binary) (place : Int) : Option Nat :=
  let below := value.floorOn place
  match value.readsBack place below, value.readsBack place (below + 1) with
  | true, true => some (if value.nearerBelow place below then below else below + 1)
  | true, false => some below
  | false, true => some (below + 1)
  | false, false => none

/-- Tries grids from `10 ^ place` on, each ten times finer than the one before it, and takes what
the last one has below the number. -/
def shortestFrom (value : Binary) : (tries : Nat) → (place : Int) → Numeral
  | 0, place => ⟨value.floorOn place, place⟩
  | tries + 1, place =>
    match value.pointOn? place with
    | some digits => ⟨digits, place⟩
    | none => value.shortestFrom tries (place - 1)

end Binary

end ShaderPipeline.Decimal
