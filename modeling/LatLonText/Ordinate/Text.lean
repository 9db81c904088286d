/-
# The text of an ordinate

An ordinate is written in positional notation, without an exponent, under one
of three precision models: the shortest digits that read back as the ordinate,
the shortest that read back as the single-precision number nearest to it, or
the ordinate rounded to a count of significant digits first. A minus sign is
written for every ordinate whose sign bit is set, zero included.

Key definitions: `Precision`, `Precision.text`, `Precision.maxDigits`.
-/
import LatLonText.Ordinate.Basic

namespace LatLonText

/-- How many digits of an ordinate are written. -/
inductive Precision where
  /-- As many as double precision needs. -/
  | floating
  /-- As many as single precision needs. -/
  | single
  /-- So many significant digits; a count of zero is taken as one. -/
  | fixed (digits : UInt32)
deriving DecidableEq

namespace Precision

/-- The largest number of significant digits that the model writes. -/
def maxDigits : Precision → Nat
  | floating => 17
  | single => 9
  | fixed digits => max digits.toNat 1

/-- The sign of a number in front of its digits. -/
def withSign (negative : Bool) (digits : List Char) : List Char :=
  if negative then '-' :: digits else digits

/-- The magnitude of single precision nearest to a finite ordinate; infinity where the ordinate is
out of its range. -/
def narrow (v : Ordinate) : Nat :=
  BinaryFormat.binary32.nearest (Ordinate.format.value v.magnitude)

/-- The shortest text that reads back as the ordinate, which is not NaN. -/
def shortestText (v : Ordinate) : List Char :=
  withSign v.negative
    (if v.isInfinite then "inf".toList else (Ordinate.format.shortest v.magnitude).positional)

/-- The text of a finite ordinate. One too large for single precision is written in full, and one
that rounding takes beyond the range is written as infinite. -/
def finiteText (p : Precision) (v : Ordinate) : List Char :=
  match p with
  | floating => shortestText v
  | single =>
    if narrow v < BinaryFormat.binary32.infinity then
      withSign v.negative (BinaryFormat.binary32.shortest (narrow v)).positional
    else shortestText v
  | fixed _ => shortestText (v.roundDigits p.maxDigits)

/-- The text of an ordinate. -/
def text (p : Precision) (v : Ordinate) : List Char :=
  if v.isNaN then "NaN".toList
  else if v.isInfinite then withSign v.negative "Infinity".toList
  else p.finiteText v

end Precision

end LatLonText
