/-
# The shortest decimal that reads back

For a magnitude of a binary format, the grid of `n` significant digits has two
points next to it, one at or below and one above. The shortest decimal is taken
from the first grid, counting digits up from one, that holds a point which
rounds back to the magnitude; if both points do, the nearer one is taken, and
the upper one if they are equally near.

It suffices to look at the two neighbours: rounding keeps order, so if any point
of a grid rounds to a magnitude, so does the neighbour on its side.

Key definitions: `BinaryFormat.onGrid?`, `BinaryFormat.shortest`.
-/
import LatLonText.Binary
import LatLonText.Decimal.Basic

namespace LatLonText.BinaryFormat

variable (f : BinaryFormat)

/-- The point next to a positive magnitude on the grid of `n` significant digits that rounds back
to it, if there is one. -/
def onGrid? (magnitude n : Nat) : Option Decimal :=
  let v := f.value magnitude
  let e := Decimal.unitExponent n v
  let below := (v * (10 : Rat) ^ (-e)).floor.toNat
  let lower : Decimal := ⟨below, e⟩
  let upper : Decimal := ⟨below + 1, e⟩
  if f.nearest lower.value = magnitude then
    if f.nearest upper.value = magnitude ∧ upper.value - v ≤ v - lower.value then some upper
    else some lower
  else if f.nearest upper.value = magnitude then some upper
  else none

/-- More significant digits than any format of this library needs to tell its magnitudes apart. -/
def enoughDigits : Nat := 17

/-- The decimal with the fewest significant digits that rounds to a finite magnitude, and of those
the nearest. -/
def shortest (magnitude : Nat) : Decimal :=
  if magnitude = 0 then ⟨0, 0⟩
  else
    ((List.range' 1 enoughDigits).findSome? (f.onGrid? magnitude)).getD
      (Decimal.ofRat enoughDigits (f.value magnitude))

end LatLonText.BinaryFormat
