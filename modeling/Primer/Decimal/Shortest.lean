/-! # The shortest decimal of a binary number

A finite float is `mantissa * 2 ^ exponent`, and it is what every real number in a small interval
around it rounds to. Its shortest decimal is a multiple of the largest power of ten that has a
multiple in that interval, because fewer digits mean a coarser grid. On the coarsest such grid
the nearer of the float's two neighbours is taken, and the upper one if both are equally near.
All comparisons are between natural numbers, so nothing is rounded on the way.
-/
namespace Primer

/-- The nonnegative decimal number `digits * 10 ^ exponent`. -/
structure Decimal where
  digits : Nat
  exponent : Int
deriving DecidableEq

namespace Decimal

/-- The positive binary number `mantissa * 2 ^ exponent`, with what its rounding interval needs. -/
structure Binary where
  mantissa : Nat
  exponent : Int
  /-- The float below is only half as far away as the one above. -/
  narrowBelow : Bool
deriving DecidableEq

/-- The magnitude of a finite float, read off its bit pattern. -/
def Binary.ofBits (bits : Nat) : Binary :=
  let unit : Nat := 0x10000000000000
  let fraction : Nat := bits % unit
  let biased : Nat := bits / unit % 0x800
  if biased = 0 then ⟨fraction, -1074, false⟩
  else ⟨unit + fraction, biased - 1075, fraction == 0 && biased > 1⟩

namespace Binary

/-- Four times the mantissa: the interval's ends are whole numbers in quarters of a unit. -/
def quarters (b : Binary) : Nat := 4 * b.mantissa

def lower (b : Binary) : Nat := b.quarters - (if b.narrowBelow then 1 else 2)

def upper (b : Binary) : Nat := b.quarters + 2

/-- The ends of the interval round to the float exactly when its mantissa is even. -/
def within (b : Binary) (low high : Nat) : Bool :=
  if b.mantissa % 2 = 0 then low ≤ high else low < high

/-- The factors that compare `x * 2 ^ (exponent - 2)` with `d * 10 ^ place` as natural numbers:
the first belongs to `x` and the second to `d`. -/
def scales (b : Binary) (place : Int) : Nat × Nat :=
  let e := b.exponent - 2
  (Nat.pow 2 e.toNat * Nat.pow 10 (-place).toNat, Nat.pow 10 place.toNat * Nat.pow 2 (-e).toNat)

/-- The multiple of `10 ^ place` that stands for the number on that grid, if the grid has one
in the rounding interval. -/
def onGrid? (b : Binary) (place : Int) : Option Nat :=
  let (s, t) := b.scales place
  let below := b.quarters * s / t
  let above := below + 1
  let belowFits := b.within (b.lower * s) (below * t)
  let aboveFits := b.within (above * t) (b.upper * s)
  if aboveFits && (!belowFits || (below + above) * t ≤ 2 * (b.quarters * s)) then some above
  else if belowFits then some below
  else none

def exact (b : Binary) : Decimal :=
  if 0 ≤ b.exponent then ⟨b.mantissa * Nat.pow 2 b.exponent.toNat, 0⟩
  else ⟨b.mantissa * Nat.pow 5 (-b.exponent).toNat, b.exponent⟩

/-- Tries the grids of `10 ^ (n - 325)`, `10 ^ (n - 326)` and so on down to `10 ^ (-324)`, which is
fine enough for every float. -/
def coarsest (b : Binary) : Nat → Decimal
  | 0 => b.exact
  | n + 1 =>
    let place : Int := n - 324
    match b.onGrid? place with
    | some d => ⟨d, place⟩
    | none => b.coarsest n

/-- A power of ten above the number: `30103 / 100000` is a little more than the logarithm of two. -/
def placeAbove (b : Binary) : Int :=
  (b.exponent + b.mantissa.log2 + 1) * 30103 / 100000 + 1

/-- The decimal with the fewest digits that reads back as the number. -/
def shortest (b : Binary) : Decimal :=
  b.coarsest (b.placeAbove + 325).toNat

end Binary

end Decimal

end Primer
