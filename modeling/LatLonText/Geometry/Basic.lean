/-
# Geometries

The geometries that can be written: points, sequences of coordinates, polygons,
and collections of these, which may be nested. Absence is a value: a coordinate
without Z or M holds NaN there, and a point without a coordinate is empty.
Nothing is checked about closure or orientation.

Key definitions: `Coordinate`, `Polygon`, `Geometry`, `Kind`, `Geometry.kind`,
`Geometry.isEmpty`.
Key theorems: `Polygon.ofRings_rings`.
-/
import LatLonText.Ordinate.Basic

namespace LatLonText

/-- A position. An absent Z or M is NaN. -/
structure Coordinate where
  x : Ordinate
  y : Ordinate
  z : Ordinate
  m : Ordinate

namespace Coordinate

/-- A coordinate with neither Z nor M. -/
def xy (x y : Ordinate) : Coordinate := ⟨x, y, .absent, .absent⟩

/-- A coordinate without M. -/
def xyz (x y z : Ordinate) : Coordinate := ⟨x, y, z, .absent⟩

/-- A coordinate without Z. -/
def xym (x y m : Ordinate) : Coordinate := ⟨x, y, .absent, m⟩

end Coordinate

/-- A polygon: the ring around it and the rings of its holes. -/
structure Polygon where
  exterior : List Coordinate
  interiors : List (List Coordinate)

namespace Polygon

/-- The polygon without rings. -/
def empty : Polygon := ⟨[], []⟩

/-- A polygon with nothing on the ring around it is empty, whatever its holes. -/
def isEmpty (p : Polygon) : Bool :=
  p.exterior.isEmpty

/-- All rings, the exterior first. -/
def rings (p : Polygon) : List (List Coordinate) :=
  p.exterior :: p.interiors

/-- The polygon with these rings, the first of which is the exterior. -/
def ofRings : List (List Coordinate) → Polygon
  | [] => empty
  | exterior :: interiors => ⟨exterior, interiors⟩

theorem ofRings_rings (p : Polygon) : ofRings p.rings = p := rfl

end Polygon

/-- A geometry of any kind. -/
inductive Geometry where
  | point (coordinate : Option Coordinate)
  | lineString (coordinates : List Coordinate)
  | linearRing (coordinates : List Coordinate)
  | polygon (polygon : Polygon)
  | multiPoint (points : List (Option Coordinate))
  | multiLineString (lines : List (List Coordinate))
  | multiPolygon (polygons : List Polygon)
  | collection (members : List Geometry)

/-- The kinds of geometries. -/
inductive Kind where
  | point
  | lineString
  | linearRing
  | polygon
  | multiPoint
  | multiLineString
  | multiPolygon
  | collection
deriving DecidableEq

namespace Kind

/-- The word that begins the text of a geometry. -/
def tag : Kind → String
  | point => "POINT"
  | lineString => "LINESTRING"
  | linearRing => "LINEARRING"
  | polygon => "POLYGON"
  | multiPoint => "MULTIPOINT"
  | multiLineString => "MULTILINESTRING"
  | multiPolygon => "MULTIPOLYGON"
  | collection => "GEOMETRYCOLLECTION"

/-- The name of a kind in running text. -/
def name : Kind → String
  | point => "Point"
  | lineString => "LineString"
  | linearRing => "LinearRing"
  | polygon => "Polygon"
  | multiPoint => "MultiPoint"
  | multiLineString => "MultiLineString"
  | multiPolygon => "MultiPolygon"
  | collection => "GeometryCollection"

end Kind

namespace Geometry

/-- The kind of a geometry. -/
def kind : Geometry → Kind
  | point _ => .point
  | lineString _ => .lineString
  | linearRing _ => .linearRing
  | polygon _ => .polygon
  | multiPoint _ => .multiPoint
  | multiLineString _ => .multiLineString
  | multiPolygon _ => .multiPolygon
  | collection _ => .collection

/-- Whether the geometry holds nothing: no coordinate, or no part of its own. A collection of empty
geometries is not empty. -/
def isEmpty : Geometry → Bool
  | point c => c.isNone
  | lineString cs => cs.isEmpty
  | linearRing cs => cs.isEmpty
  | polygon p => p.isEmpty
  | multiPoint ps => ps.isEmpty
  | multiLineString ls => ls.isEmpty
  | multiPolygon ps => ps.isEmpty
  | collection gs => gs.isEmpty

end Geometry

end LatLonText
