/-
# Equality of geometries

Two geometries are equal when they are of one kind and equal part by part, with
ordinates compared as numbers. Since an absent ordinate is NaN, a coordinate
that lacks Z or M is not equal to itself.

Key definitions: `Coordinate.numberEq`, `Geometry.numberEq`.
-/
import LatLonText.Geometry.Basic

namespace LatLonText

/-- Equality of all four ordinates, as numbers. -/
def Coordinate.numberEq (a b : Coordinate) : Bool :=
  a.x == b.x && a.y == b.y && a.z == b.z && a.m == b.m

instance : BEq Coordinate := ⟨Coordinate.numberEq⟩

/-- Equality ring by ring. -/
def Polygon.numberEq (a b : Polygon) : Bool :=
  a.exterior == b.exterior && a.interiors == b.interiors

instance : BEq Polygon := ⟨Polygon.numberEq⟩

mutual

/-- Equality of kind and of all parts. -/
def Geometry.numberEq : Geometry → Geometry → Bool
  | .point a, .point b => a == b
  | .lineString a, .lineString b => a == b
  | .linearRing a, .linearRing b => a == b
  | .polygon a, .polygon b => a == b
  | .multiPoint a, .multiPoint b => a == b
  | .multiLineString a, .multiLineString b => a == b
  | .multiPolygon a, .multiPolygon b => a == b
  | .collection a, .collection b => Geometry.membersEq a b
  | _, _ => false

/-- Equality of two lists of geometries, member by member. -/
def Geometry.membersEq : List Geometry → List Geometry → Bool
  | [], [] => true
  | a :: as, b :: bs => Geometry.numberEq a b && Geometry.membersEq as bs
  | _, _ => false

end

instance : BEq Geometry := ⟨Geometry.numberEq⟩

end LatLonText
