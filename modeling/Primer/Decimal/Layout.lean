import Primer.Decimal.Shortest

/-! # How a float is written

A float is written with its shortest digits. Numbers of ordinary size are written positionally
with at least one digit on each side of the point, and all others with an exponent.
-/
namespace Primer

namespace Decimal

def digitChars (d : Decimal) : List Char := Nat.toDigits 10 d.digits

def leading (d : Decimal) : Int := d.exponent + d.digitChars.length - 1

/-- All digits in place around a point, such as `1500.0` or `0.015`. -/
def positional (d : Decimal) : List Char :=
  if 0 ≤ d.exponent then
    d.digitChars ++ List.replicate d.exponent.toNat '0' ++ ['.', '0']
  else
    let fraction := (-d.exponent).toNat
    let padded := List.replicate (fraction + 1 - d.digitChars.length) '0' ++ d.digitChars
    let whole := padded.length - fraction
    padded.take whole ++ '.' :: padded.drop whole

/-- One digit before the point, no point if no digit follows, and the exponent without padding. -/
def scientific (d : Decimal) : List Char :=
  let tail := d.digitChars.drop 1
  d.digitChars.take 1 ++ (if tail.isEmpty then [] else '.' :: tail) ++
    'e' :: (Int.repr d.leading).toList

/-- Positional from `10 ^ (-4)` up to but excluding `10 ^ 16`. -/
def layout (d : Decimal) : List Char :=
  if -4 ≤ d.leading ∧ d.leading < 16 then d.positional else d.scientific

end Decimal

/-- The text of a float: its shortest digits, `inf` or `NaN`. A negative one starts with a minus
sign, zero and infinity included. -/
def floatText (x : Float) : String :=
  let bits := x.toBits.toNat
  let signBit := 0x8000000000000000
  let infinity := 0x7FF0000000000000
  let magnitude := bits % signBit
  let sign := if bits < signBit then "" else "-"
  if magnitude > infinity then "NaN"
  else if magnitude = infinity then sign ++ "inf"
  else if magnitude = 0 then sign ++ "0.0"
  else sign ++ String.ofList (Decimal.Binary.ofBits magnitude).shortest.layout

end Primer
