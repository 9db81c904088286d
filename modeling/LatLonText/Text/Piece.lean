/-
# The pieces that a text is made of

The text of a geometry is a list of pieces: tags, parentheses, commas,
coordinates and line breaks. Every decision about layout and ordinates is taken
when the pieces are put together; what is left to the text of a piece is the
spelling of numbers and of the marker for what is missing. A line break keeps
the count of its blanks, so that a sink that takes only a few never sees the
rest.

Key definitions: `Slot`, `Piece`, `Spelling`, `Spelling.piece`, `Spelling.pieces`.
-/
import LatLonText.Config
import LatLonText.Geometry.Basic

namespace LatLonText

/-- One place of a coordinate in the text. -/
inductive Slot where
  /-- The text of an ordinate. -/
  | value (ordinate : Ordinate)
  /-- The marker of the dialect. -/
  | missing

/-- A part of the text that is written as a whole. -/
inductive Piece where
  /-- The tag of a geometry and a blank. -/
  | tag (kind : Kind)
  /-- The token of the ordinates and a blank. -/
  | token (ordinates : Ordinates)
  /-- What stands for a geometry or part that is empty. -/
  | empty
  | opening
  | closing
  /-- What stands between two parts. -/
  | separator
  /-- The places of one coordinate, with blanks between them. -/
  | coordinate (slots : List Slot)
  /-- A new line that begins with so many blanks. -/
  | lineBreak (blanks : Nat)

/-- How numbers and missing ordinates are spelled. -/
structure Spelling where
  precision : Precision
  missingMarker : String

namespace Spelling

/-- The text of a place. -/
def slot (s : Spelling) : Slot → List Char
  | .value v => s.precision.text v
  | .missing => s.missingMarker.toList

/-- The text of a coordinate. -/
def slots (s : Spelling) (places : List Slot) : List Char :=
  List.intercalate [' '] (places.map s.slot)

/-- The text of a piece; of a line break, the part before its blanks. -/
def start (s : Spelling) : Piece → List Char
  | .tag kind => kind.tag.toList ++ [' ']
  | .token ordinates => ordinates.token.toList
  | .empty => "EMPTY".toList
  | .opening => ['(']
  | .closing => [')']
  | .separator => [',', ' ']
  | .coordinate places => s.slots places
  | .lineBreak _ => ['\n']

end Spelling

/-- The blanks at the end of a piece. -/
def Piece.blanks : Piece → Nat
  | .lineBreak n => n
  | _ => 0

namespace Spelling

/-- The text of a piece. -/
def piece (s : Spelling) (p : Piece) : List Char :=
  s.start p ++ List.replicate p.blanks ' '

/-- The text of pieces one after the other. -/
def pieces (s : Spelling) (ps : List Piece) : List Char :=
  ps.flatMap s.piece

end Spelling

end LatLonText
