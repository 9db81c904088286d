/-
# Shapes from elsewhere

A shape is a geometry as other formats describe it: each position tells its own
dimensions and answers for its ordinates by index, a polygon may lack an
exterior, and there are lines, triangles and rectangles. `Shape.toGeometry` turns
a shape into the geometry that is written. Which ordinate an index holds depends
on the dimensions: the M of a position without Z stands where the Z of others
does.

Key definitions: `Dimensions`, `Position`, `Position.toCoordinate`, `Shape`,
`Shape.toGeometry`.
-/
import LatLonText.Geometry.Basic
import LatLonText.Ordinates

namespace LatLonText

/-- What a position tells of its ordinates: their names, or only how many there are. -/
inductive Dimensions where
  | xy
  | xyz
  | xym
  | xyzm
  | unknown (size : Nat)
deriving DecidableEq

namespace Dimensions

/-- How many ordinates there are. -/
def size : Dimensions → Nat
  | xy => 2
  | xyz => 3
  | xym => 3
  | xyzm => 4
  | unknown n => n

/-- The dimensions that name the ordinates of a set. -/
def ofOrdinates (o : Ordinates) : Dimensions :=
  match o.z, o.m with
  | false, false => xy
  | true, false => xyz
  | false, true => xym
  | true, true => xyzm

end Dimensions

/-- A position as it describes itself. -/
structure Position where
  x : Ordinate
  y : Ordinate
  dimensions : Dimensions
  /-- The ordinate at an index, counted from zero, where there is one. -/
  nth : Nat → Option Ordinate

namespace Position

/-- The position with ordinates in order; beyond the size of its dimensions it has none. -/
def ofOrdinates (d : Dimensions) (os : List Ordinate) : Position where
  x := os.getD 0 .absent
  y := os.getD 1 .absent
  dimensions := d
  nth i := if i < d.size then os[i]? else none

/-- The coordinate of a position. Of ordinates without a name the third is taken for Z and the fourth
for M. -/
def toCoordinate (p : Position) : Coordinate :=
  let nth := fun i => (p.nth i).getD .absent
  match p.dimensions with
  | .xy => .xy p.x p.y
  | .xyz => .xyz p.x p.y (nth 2)
  | .xym => .xym p.x p.y (nth 2)
  | .xyzm => ⟨p.x, p.y, nth 2, nth 3⟩
  | .unknown _ => ⟨p.x, p.y, nth 2, nth 3⟩

end Position

/-- The rings of a polygon, of which the exterior may be missing. -/
structure PolygonShape where
  exterior : Option (List Position)
  interiors : List (List Position)

/-- A missing exterior becomes an empty one. -/
def PolygonShape.toPolygon (p : PolygonShape) : Polygon :=
  ⟨(p.exterior.getD []).map Position.toCoordinate,
    p.interiors.map fun ring => ring.map Position.toCoordinate⟩

/-- A geometry as other formats describe it. -/
inductive Shape where
  | point (position : Option Position)
  | lineString (positions : List Position)
  | polygon (polygon : PolygonShape)
  | multiPoint (points : List (Option Position))
  | multiLineString (lines : List (List Position))
  | multiPolygon (polygons : List PolygonShape)
  | collection (members : List Shape)
  /-- A straight line between two positions. -/
  | line (first last : Position)
  /-- A triangle by its corners. -/
  | triangle (first second third : Position)
  /-- A rectangle by two opposite corners. -/
  | rectangle (low high : Position)

namespace Shape

/-- The ring around a triangle, closed by its first corner. -/
def triangleRing (first second third : Position) : List Coordinate :=
  [first, second, third, first].map Position.toCoordinate

/-- The ring around a rectangle, in X and Y only, closed by its first corner. -/
def rectangleRing (low high : Position) : List Coordinate :=
  [.xy low.x low.y, .xy high.x low.y, .xy high.x high.y, .xy low.x high.y, .xy low.x low.y]

mutual

/-- The geometry of a shape. -/
def toGeometry : Shape → Geometry
  | point p => .point (p.map Position.toCoordinate)
  | lineString ps => .lineString (ps.map Position.toCoordinate)
  | polygon p => .polygon p.toPolygon
  | multiPoint ps => .multiPoint (ps.map fun p => p.map Position.toCoordinate)
  | multiLineString ls => .multiLineString (ls.map fun ps => ps.map Position.toCoordinate)
  | multiPolygon ps => .multiPolygon (ps.map PolygonShape.toPolygon)
  | collection ms => .collection (toGeometries ms)
  | line a b => .lineString [a.toCoordinate, b.toCoordinate]
  | triangle a b c => .polygon ⟨triangleRing a b c, []⟩
  | rectangle a b => .polygon ⟨rectangleRing a b, []⟩

/-- The geometries of shapes, in order. -/
def toGeometries : List Shape → List Geometry
  | [] => []
  | s :: rest => toGeometry s :: toGeometries rest

end

end Shape

end LatLonText
