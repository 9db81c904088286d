/-
# Decimals and their positional text

A decimal is a whole number of units of a power of ten. The positional text
(`Decimal.positional`) writes it without an exponent, with no superfluous zero
in front and none after the point, however large or small it is; rounding to a
count of significant digits (`Decimal.ofRat`) goes through the grid of the
decade that the number starts in.

Key definitions: `Decimal.value`, `Decimal.ofRat`, `Decimal.trim`, `Decimal.positional`.
Key theorems: `Decimal.positional_zero`.
-/
import LatLonText.Rounding

namespace LatLonText

/-- The number `digits · 10 ^ exponent`. -/
structure Decimal where
  /-- How many units. -/
  digits : Nat
  /-- The power of ten that is one unit. -/
  exponent : Int
deriving DecidableEq

namespace Decimal

/-- The number that a decimal stands for. -/
def value (d : Decimal) : Rat :=
  (d.digits : Rat) * (10 : Rat) ^ d.exponent

/-- The exponent of the unit in which a positive `r` has `n` digits before the point. -/
def unitExponent (n : Nat) (r : Rat) : Int :=
  decimalLog r - ((n : Int) - 1)

/-- A positive `r` rounded to `n` significant digits, a half to the even digit. Rounding up from
all nines gives one digit more, the next power of ten. -/
def ofRat (n : Nat) (r : Rat) : Decimal :=
  let e := unitExponent n r
  ⟨roundHalfEven (r * (10 : Rat) ^ (-e)), e⟩

/-- Moves up to `limit` zeros from the end of `digits` into the exponent. -/
def trimWithin : (limit : Nat) → Decimal → Decimal
  | 0, d => d
  | limit + 1, d =>
    if d.digits % 10 = 0 then trimWithin limit ⟨d.digits / 10, d.exponent + 1⟩ else d

/-- The same number without zeros at the end of its digits; zero is written in whole units. -/
def trim (d : Decimal) : Decimal :=
  if d.digits = 0 then ⟨0, 0⟩ else trimWithin (decimalLogNat d.digits) d

/-- The decimal numeral of a whole number. -/
def numeral (n : Nat) : List Char :=
  Nat.toDigits 10 n

/-- The decimal in positional notation: whole units, and after a point the decimal places up to
the last one that is not zero. -/
def positional (d : Decimal) : List Char :=
  let t := d.trim
  if 0 ≤ t.exponent then numeral (t.digits * Nat.pow 10 t.exponent.toNat)
  else
    let places := (-t.exponent).toNat
    let unit := Nat.pow 10 places
    numeral (t.digits / unit) ++ '.' :: (numeral (t.digits % unit)).leftpad places '0'

theorem positional_zero (e : Int) : positional ⟨0, e⟩ = ['0'] := by
  simp [positional, trim, numeral, Nat.toDigits, Nat.toDigitsCore, Nat.digitChar]

end Decimal

end LatLonText
