/-
# The texts of geometries

A geometry becomes its tag, the token of its ordinates, and its body: `EMPTY`,
or the parts in parentheses with commas between them. The first part of a
geometry keeps the level of the whole and follows on the same line; each later
one stands one level deeper on a line of its own, except that elements of a
sequence are only wrapped when a line is full. An empty part takes no line.

Here a text is a list of pieces. How it goes into a sink, which may refuse any part
of it, is in `LatLonText.Text.Printer`.

Key definitions: `Style`, `Style.geometry`, `Config.pieces`, `Config.write`.
-/
import LatLonText.Geometry.Presence
import LatLonText.Text.Layout

namespace LatLonText

/-- What decides the pieces of a text. -/
structure Style where
  /-- The ordinates that are written. -/
  ordinates : Ordinates
  /-- Whether tags are followed by their token. -/
  writesToken : Bool
  layout : Layout

namespace Style

variable (s : Style)

/-- The places of a coordinate: Y, X, then Z and M as far as they are written. Only an absent Z is
marked as missing. -/
def slots (c : Coordinate) : List Slot :=
  [.value c.y, .value c.x]
    ++ (if s.ordinates.z then [if c.z.isNaN then .missing else .value c.z] else [])
    ++ (if s.ordinates.m then [.value c.m] else [])

/-- Elements `i`, `i + 1`, ... of a sequence, each behind a comma and wrapped where a line is
full. -/
def laterElements {α : Type} (level : Nat) (element : α → List Piece) : List α → Nat → List Piece
  | [], _ => []
  | a :: rest, i =>
    .separator :: s.layout.wrapAt i (level + 1) ++ element a
      ++ laterElements level element rest (i + 1)

/-- Elements in parentheses. -/
def elements {α : Type} (level : Nat) (element : α → List Piece) : List α → List Piece
  | [] => [.empty]
  | a :: rest => .opening :: element a ++ laterElements s level element rest 1 ++ [.closing]

/-- A sequence of coordinates, behind a line break if it is on a line of its own. -/
def sequence (level : Nat) (ownLine : Bool) (coordinates : List Coordinate) : List Piece :=
  (if ownLine && !coordinates.isEmpty then s.layout.breakAt level else [])
    ++ s.elements level (fun c => [.coordinate (s.slots c)]) coordinates

/-- Parts in parentheses, each later one a level deeper on a line of its own. -/
def parts {α : Type} (level : Nat) (part : Nat → Bool → α → List Piece) : List α → List Piece
  | [] => [.empty]
  | a :: rest =>
    .opening :: part level false a
      ++ rest.flatMap (fun b => .separator :: part (level + 1) true b) ++ [.closing]

/-- A polygon, behind a line break if it is on a line of its own. -/
def polygon (level : Nat) (ownLine : Bool) (p : Polygon) : List Piece :=
  if p.isEmpty then [.empty]
  else (if ownLine then s.layout.breakAt level else []) ++ parts level s.sequence p.rings

/-- The tag of a geometry and what goes with it. -/
def heading (level : Nat) (kind : Kind) : List Piece :=
  s.layout.breakAt level ++ .tag kind :: (if s.writesToken then [.token s.ordinates] else [])

mutual

/-- A geometry at a level. -/
def geometry (level : Nat) : Geometry → List Piece
  | .point c => s.heading level .point ++ s.sequence level false c.toList
  | .lineString cs => s.heading level .lineString ++ s.sequence level false cs
  | .linearRing cs => s.heading level .linearRing ++ s.sequence level false cs
  | .polygon p => s.heading level .polygon ++ s.polygon level false p
  | .multiPoint ps =>
    s.heading level .multiPoint
      ++ s.elements level (fun c => s.sequence level false c.toList) ps
  | .multiLineString ls => s.heading level .multiLineString ++ parts level s.sequence ls
  | .multiPolygon ps => s.heading level .multiPolygon ++ parts level s.polygon ps
  | .collection [] => s.heading level .collection ++ [.empty]
  | .collection (g :: gs) =>
    s.heading level .collection
      ++ .opening :: geometry level g ++ laterMembers (level + 1) gs ++ [.closing]

/-- Members of a collection, each behind a comma. -/
def laterMembers (level : Nat) : List Geometry → List Piece
  | [] => []
  | g :: gs => .separator :: geometry level g ++ laterMembers level gs

end

end Style

namespace Config

variable (c : Config)

/-- The ordinates that are written for a geometry. -/
def effectiveOrdinates (g : Geometry) : Ordinates :=
  g.presentOrdinates c.ordinates c.dialect.mImpliesZ

/-- How lines are broken. -/
def layout : Layout := ⟨c.pretty, c.indentWidth, c.perLine⟩

/-- How numbers and missing ordinates are spelled. -/
def spelling : Spelling := ⟨c.precision, c.dialect.missingMarker⟩

/-- The pieces of the text of a geometry. -/
def pieces (g : Geometry) : List Piece :=
  (Style.mk (c.effectiveOrdinates g) c.dialect.writesToken c.layout).geometry 0 g

/-- The characters of the text of a geometry. -/
def text (g : Geometry) : List Char :=
  c.spelling.pieces (c.pieces g)

/-- The text of a geometry. -/
def write (g : Geometry) : String :=
  String.ofList (c.text g)

/-- The text of a geometry, broken into lines whatever the configuration says. -/
def writeFormatted (g : Geometry) : String :=
  c.formatted.write g

/-- What is logged when a geometry is written. -/
def trace (g : Geometry) : String :=
  "TRACE writing " ++ g.kind.name ++ " with ordinates " ++ (c.effectiveOrdinates g).letters

end Config

end LatLonText
