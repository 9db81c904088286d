/-
# Line breaks

Text that is broken into lines is indented by levels. A break at level zero is
no break, and neither is any break in text that stays on one line.

Key definitions: `Layout.breakAt`, `Layout.wrapAt`.
Key theorems: `Layout.breakAt_zero`, `Layout.breakAt_of_not_pretty`.
-/
import LatLonText.Text.Piece

namespace LatLonText

/-- Where and how lines are broken. -/
structure Layout where
  pretty : Bool
  indentWidth : UInt64
  perLine : UInt64

namespace Layout

/-- One more than the largest count of blanks; a larger product wraps around. -/
def blanksModulus : Nat := 0x10000000000000000

/-- The break in front of a part at a level. -/
def breakAt (l : Layout) (level : Nat) : List Piece :=
  if l.pretty && level != 0 then
    [.lineBreak (level * l.indentWidth.toNat % blanksModulus)]
  else []

theorem breakAt_zero (l : Layout) : l.breakAt 0 = [] := by
  simp [breakAt]

theorem breakAt_of_not_pretty {l : Layout} (h : l.pretty = false) (level : Nat) :
    l.breakAt level = [] := by
  simp [breakAt, h]

/-- The break in front of element `i` of a sequence, after each full line. -/
def wrapAt (l : Layout) (i level : Nat) : List Piece :=
  if l.perLine.toNat != 0 && i % l.perLine.toNat == 0 then l.breakAt level else []

end Layout

end LatLonText
