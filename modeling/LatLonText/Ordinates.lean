/-
# Sets of ordinates

A set of ordinates is a byte, with a bit for each ordinate. Every coordinate has an
X and a Y, so their bits are set to begin with, and a set says which of Z and M
stand beside them. An output dimension of 2, 3 or 4 names a set, and a set has the
token that follows a tag in the text (`POINT ZM (...)`).

Key definitions: `Ordinates`, `Ordinates.has`, `Ordinates.ofDimension?`,
`Ordinates.token`.
Key theorems: `Ordinates.has_withZ`, `Ordinates.has_withM`.
-/
namespace LatLonText

/-- A set of ordinates, by its bits. -/
structure Ordinates where
  bits : UInt8
deriving DecidableEq

namespace Ordinates

def xBit : UInt8 := 0b0001

def yBit : UInt8 := 0b0010

def zBit : UInt8 := 0b0100

def mBit : UInt8 := 0b1000

/-- X and Y alone. -/
def xy : Ordinates := ⟨xBit ||| yBit⟩

/-- Z beside X and Y. -/
def xyz : Ordinates := ⟨xy.bits ||| zBit⟩

/-- M beside X and Y. -/
def xym : Ordinates := ⟨xy.bits ||| mBit⟩

/-- All four. -/
def xyzm : Ordinates := ⟨xyz.bits ||| mBit⟩

instance : Inhabited Ordinates := ⟨xy⟩

/-- Whether a bit is in the set. -/
def has (o : Ordinates) (bit : UInt8) : Bool :=
  o.bits &&& bit != 0

/-- Whether Z is in the set. -/
def z (o : Ordinates) : Bool := o.has zBit

/-- Whether M is in the set. -/
def m (o : Ordinates) : Bool := o.has mBit

theorem z_and_m_xy : xy.z = false ∧ xy.m = false := by decide

theorem z_and_m_xyzm : xyzm.z = true ∧ xyzm.m = true := by decide

/-- The set that an output dimension asks for; only 2, 3 and 4 are dimensions. -/
def ofDimension? (dimension : UInt8) : Option Ordinates :=
  if dimension = 2 then some xy
  else if dimension = 3 then some xyz
  else if dimension = 4 then some xyzm
  else none

/-- How many ordinates the set has. -/
def dimension (o : Ordinates) : UInt8 :=
  match o.z, o.m with
  | false, false => 2
  | true, true => 4
  | _, _ => 3

/-- The set with Z added. -/
def withZ (o : Ordinates) : Ordinates := ⟨o.bits ||| zBit⟩

/-- The set with M added. -/
def withM (o : Ordinates) : Ordinates := ⟨o.bits ||| mBit⟩

/-- What follows the tag of a geometry, with the blank after it. -/
def token (o : Ordinates) : String :=
  match o.z, o.m with
  | false, false => ""
  | true, false => "Z "
  | false, true => "M "
  | true, true => "ZM "

/-- The letters of the set. -/
def letters (o : Ordinates) : String :=
  match o.z, o.m with
  | false, false => "XY"
  | true, false => "XYZ"
  | false, true => "XYM"
  | true, true => "XYZM"

/-! ### Sets with bits added -/

theorem has_or (bits added bit : UInt8) :
    (mk (bits ||| added)).has bit = ((mk bits).has bit || (mk added).has bit) := by
  have hand : (bits ||| added) &&& bit = bits &&& bit ||| added &&& bit := by
    apply UInt8.toBitVec_inj.mp
    ext i hi
    simp [Bool.and_or_distrib_right]
  unfold has
  rw [Bool.eq_iff_iff, hand]
  simp only [bne_iff_ne, Bool.or_eq_true, ne_eq, UInt8.or_eq_zero_iff]
  exact Decidable.not_and_iff_or_not

/-- Adding Z takes no bit away. -/
theorem has_withZ (o : Ordinates) (bit : UInt8) :
    o.withZ.has bit = (o.has bit || (mk zBit).has bit) :=
  has_or o.bits zBit bit

/-- Adding M takes no bit away. -/
theorem has_withM (o : Ordinates) (bit : UInt8) :
    o.withM.has bit = (o.has bit || (mk mBit).has bit) :=
  has_or o.bits mBit bit

@[simp]
theorem z_withZ (o : Ordinates) : o.withZ.z = true := by
  rw [z, has_withZ]
  exact Bool.or_true _

@[simp]
theorem m_withZ (o : Ordinates) : o.withZ.m = o.m := by
  rw [m, has_withZ]
  exact Bool.or_false _

@[simp]
theorem z_withM (o : Ordinates) : o.withM.z = o.z := by
  rw [z, has_withM]
  exact Bool.or_false _

@[simp]
theorem m_withM (o : Ordinates) : o.withM.m = true := by
  rw [m, has_withM]
  exact Bool.or_true _

end Ordinates

end LatLonText
