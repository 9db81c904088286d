/-
# Reading number literals

A literal is a number with an optional sign, digits with at most one point and
at least one digit, and an optional exponent; or one of the words `inf`,
`infinity` and `nan` in any case, also with a sign. It is read exactly, as a
decimal, and only then rounded to a binary format (`Decimal.magnitude`), so a
literal of any length is rounded once.

An exponent can be far larger than any power that could be computed. A decimal
whose leading digit stands beyond the range of the format is decided before its
value is formed.

Key definitions: `Literal.read`, `Decimal.magnitude`.
-/
import LatLonText.Binary
import LatLonText.Decimal.Basic

namespace LatLonText

/-! ### Rounding a decimal to a binary format -/

/-- The exponent of the first power of two above every finite magnitude. -/
def BinaryFormat.topExponent (f : BinaryFormat) : Int :=
  f.exponent f.infinity + (f.fractionBits : Int)

/-- The magnitude of a binary format nearest to a decimal. A decimal whose leading digit counts
`10 ^ lead` is at least `8 ^ lead` if `lead` is not negative, and less than `8 ^ (lead + 1)` if it
is: where that lies outside the format, the answer is infinity or zero. -/
def Decimal.magnitude (f : BinaryFormat) (d : Decimal) : Nat :=
  if d.digits = 0 then 0
  else
    let lead := (decimalLogNat d.digits : Int) + d.exponent
    if f.topExponent ≤ 3 * lead then f.infinity
    else if 3 * (lead + 1) < f.minExponent - 1 then 0
    else f.nearest d.value

/-! ### Literals -/

/-- What a number literal says. -/
inductive Literal where
  | finite (negative : Bool) (decimal : Decimal)
  | infinite (negative : Bool)
  | nan
deriving DecidableEq

namespace Literal

/-- The whole number that a list of digits spells. -/
def digitsValue (ds : List Char) : Nat :=
  ds.foldl (fun n c => 10 * n + (c.toNat - 48)) 0

/-- Digits and nothing else, at least one. -/
def wholeNumber? (cs : List Char) : Option Nat :=
  if !cs.isEmpty && cs.all Char.isDigit then some (digitsValue cs) else none

/-- The exponent written after the digits: none, or a mark and a whole number with a sign. -/
def exponent? : List Char → Option Int
  | [] => some 0
  | mark :: cs =>
    if mark = 'e' || mark = 'E' then
      match cs with
      | '-' :: ds => (wholeNumber? ds).map fun n => -(n : Int)
      | '+' :: ds => (wholeNumber? ds).map fun n => (n : Int)
      | ds => (wholeNumber? ds).map fun n => (n : Int)
    else none

/-- The decimal that an unsigned number spells. -/
def decimal? (cs : List Char) : Option Decimal :=
  let whole := cs.takeWhile Char.isDigit
  let rest := cs.dropWhile Char.isDigit
  let (part, tail) :=
    match rest with
    | '.' :: r => (r.takeWhile Char.isDigit, r.dropWhile Char.isDigit)
    | r => ([], r)
  if whole.isEmpty && part.isEmpty then none
  else (exponent? tail).map fun e => ⟨digitsValue (whole ++ part), e - (part.length : Int)⟩

/-- A literal without its sign. The words are compared without regard to case. -/
def readUnsigned (negative : Bool) (cs : List Char) : Option Literal :=
  let word := cs.map Char.toLower
  if word = "inf".toList || word = "infinity".toList then some (.infinite negative)
  else if word = "nan".toList then some .nan
  else (decimal? cs).map (.finite negative)

/-- Reads a whole text as a number literal. -/
def read : List Char → Option Literal
  | '-' :: cs => readUnsigned true cs
  | '+' :: cs => readUnsigned false cs
  | cs => readUnsigned false cs

end Literal

end LatLonText
