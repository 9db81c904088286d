/-
# Binary floating-point formats as a grid of magnitudes

A format is told by the width of its fraction and of its exponent. Its
nonnegative magnitudes are numbered in ascending order from zero, and the
number of a magnitude is its bit pattern without the sign: counting through the
fraction carries into the exponent. So "the next magnitude" is the successor,
subnormal numbers need no case of their own in rounding, and overflow is the
number `infinity`, which stands above all finite ones.

Key definitions: `BinaryFormat.value`, `BinaryFormat.nearest`.
Key theorems: `BinaryFormat.nearest_le_infinity`, `BinaryFormat.value_zero`.
-/
import LatLonText.Rounding

namespace LatLonText

/-- A binary interchange format, told by the widths of its two fields. -/
structure BinaryFormat where
  /-- Stored bits of the fraction, the leading one not counted. -/
  fractionBits : Nat
  /-- Bits of the exponent field. -/
  exponentBits : Nat
deriving DecidableEq

namespace BinaryFormat

/-- Double precision. -/
def binary64 : BinaryFormat := ⟨52, 11⟩

/-- Single precision. -/
def binary32 : BinaryFormat := ⟨23, 8⟩

variable (f : BinaryFormat)

/-- How many magnitudes share one exponent. -/
def stride : Nat :=
  Nat.pow 2 f.fractionBits

/-- The magnitude number of infinity: all finite magnitudes come before it. -/
def infinity : Nat :=
  (Nat.pow 2 f.exponentBits - 1) * f.stride

/-- The exponent of the smallest positive magnitude. -/
def minExponent : Int :=
  2 - (Nat.pow 2 (f.exponentBits - 1) : Nat) - (f.fractionBits : Int)

/-- The whole number that a magnitude scales by a power of two. -/
def significand (magnitude : Nat) : Nat :=
  if magnitude < f.stride then magnitude else f.stride + magnitude % f.stride

/-- The power of two that a magnitude's significand is scaled by. -/
def exponent (magnitude : Nat) : Int :=
  f.minExponent + ((magnitude / f.stride - 1 : Nat) : Int)

/-- The number that a magnitude stands for. For `infinity` it is the power of two that would come
next if exponents went on. -/
def value (magnitude : Nat) : Rat :=
  (f.significand magnitude : Rat) * (2 : Rat) ^ f.exponent magnitude

/-- The magnitude nearest to `r`; a number halfway between two goes to the one whose last bit is
zero, and one beyond the range to `infinity`. A significand rounded up to the next power of two
needs no care, since it is the first of the next exponent. -/
def nearest (r : Rat) : Nat :=
  if r ≤ 0 then 0
  else
    let e := max f.minExponent (binaryLog r - (f.fractionBits : Int))
    min f.infinity ((e - f.minExponent).toNat * f.stride + roundHalfEven (r * (2 : Rat) ^ (-e)))

theorem nearest_le_infinity (r : Rat) : f.nearest r ≤ f.infinity := by
  unfold nearest
  split
  · exact Nat.zero_le _
  · exact Nat.min_le_left _ _

theorem value_zero : f.value 0 = 0 := by
  have h : f.significand 0 = 0 := if_pos (Nat.pow_pos (by decide))
  simp [value, h]

end BinaryFormat

end LatLonText
