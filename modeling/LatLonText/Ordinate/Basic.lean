/-
# Ordinates

An ordinate is a double-precision number kept as its bit pattern, so that what
is true of it can be said of whole numbers: its sign is the top bit, and the
rest numbers its magnitude among those of the format. An absent ordinate is a
NaN, whatever its sign and payload.

Two relations compare ordinates. `=` asks for the same bits; `==` is the
equality of numbers, for which zero has no sign and a NaN differs from
everything.

Key definitions: `Ordinate.magnitude`, `Ordinate.isNaN`, `Ordinate.toRat`,
`Ordinate.roundDigits`.
-/
import LatLonText.Decimal.Literal
import LatLonText.Decimal.Shortest

namespace LatLonText

/-- A double-precision number, by its bits. -/
structure Ordinate where
  /-- The sign, the exponent and the fraction, from the top bit down. -/
  bits : UInt64
deriving DecidableEq

namespace Ordinate

/-- The format of ordinates. -/
abbrev format : BinaryFormat := .binary64

/-- The weight of the sign bit. -/
def signWeight : Nat := 0x8000000000000000

/-- The number of the magnitude among those of the format. -/
def magnitude (v : Ordinate) : Nat :=
  v.bits.toNat % signWeight

/-- Whether the sign bit is set. -/
def negative (v : Ordinate) : Bool :=
  signWeight ≤ v.bits.toNat

/-- Whether the ordinate is no number, and so counts as absent. -/
def isNaN (v : Ordinate) : Bool :=
  format.infinity < v.magnitude

/-- Whether the ordinate is beyond all numbers. -/
def isInfinite (v : Ordinate) : Bool :=
  v.magnitude == format.infinity

/-- Whether the ordinate is a number. -/
def isFinite (v : Ordinate) : Bool :=
  v.magnitude < format.infinity

/-- The ordinate with a sign and a magnitude. -/
def ofMagnitude (negative : Bool) (magnitude : Nat) : Ordinate :=
  ⟨UInt64.ofNat (if negative then signWeight + magnitude else magnitude)⟩

/-- The NaN that stands for an absent ordinate. -/
def absent : Ordinate := ⟨0x7ff8000000000000⟩

/-- The number of a finite ordinate. -/
def toRat (v : Ordinate) : Rat :=
  if v.negative then -(format.value v.magnitude) else format.value v.magnitude

/-- The ordinate nearest to a whole number. -/
def ofInt (n : Int) : Ordinate :=
  ofMagnitude (decide (n < 0)) (format.nearest (n.natAbs : Rat))

/-- The ordinate nearest to a literal. -/
def ofLiteral : Literal → Ordinate
  | .finite negative decimal => ofMagnitude negative (decimal.magnitude format)
  | .infinite negative => ofMagnitude negative format.infinity
  | .nan => absent

/-- Equality of numbers: a NaN equals nothing, and both zeros are equal. -/
def numberEq (a b : Ordinate) : Bool :=
  !a.isNaN && !b.isNaN && (a.bits == b.bits || (a.magnitude == 0 && b.magnitude == 0))

instance : BEq Ordinate := ⟨numberEq⟩

/-- The number rounded to `n` significant digits and then to the nearest ordinate. Zero keeps its
sign, and with enough digits to tell all ordinates apart nothing changes. A number whose rounding
lies beyond the range becomes infinite. -/
def roundDigits (n : Nat) (v : Ordinate) : Ordinate :=
  if v.magnitude = 0 || BinaryFormat.enoughDigits ≤ n then v
  else ofMagnitude v.negative (format.nearest (Decimal.ofRat n (format.value v.magnitude)).value)

end Ordinate

end LatLonText
