/-
# The parts of a geometry, by position

A component is a geometry or a part of one that is not a geometry by itself:
the point of a multipoint, the line of a multi line string, a ring. From each
component its own parts are reached by position, and asking for a part tells
apart a component that has no such parts from a position beyond the last.

Key definitions: `Component`, `Component.child`, `Component.coordinate`.
-/
import LatLonText.Geometry.Basic

namespace LatLonText

/-- A geometry or a part of one. -/
inductive Component where
  | geometry (geometry : Geometry)
  | point (coordinate : Option Coordinate)
  | line (coordinates : List Coordinate)
  | ring (coordinates : List Coordinate)
  | polygon (polygon : Polygon)

/-- Why a part is not there. -/
inductive PartFault where
  /-- The component does not have parts of this sort. -/
  | notApplicable
  /-- The position is beyond the last part. -/
  | outOfRange
deriving DecidableEq

namespace Component

/-- The part at a position. -/
def part {α : Type} (parts : List α) (i : Nat) : Except PartFault α :=
  match parts[i]? with
  | some a => .ok a
  | none => .error .outOfRange

/-- The member of a collection or multi geometry at a position. -/
def child (i : Nat) : Component → Except PartFault Component
  | geometry (.multiPoint ps) => (part ps i).map point
  | geometry (.multiLineString ls) => (part ls i).map line
  | geometry (.multiPolygon ps) => (part ps i).map polygon
  | geometry (.collection gs) => (part gs i).map geometry
  | _ => .error .notApplicable

/-- The polygon that a component is. -/
def asPolygon? : Component → Option Polygon
  | geometry (.polygon p) => some p
  | polygon p => some p
  | _ => none

/-- The exterior of a polygon. -/
def exterior (c : Component) : Except PartFault Component :=
  match c.asPolygon? with
  | some p => .ok (ring p.exterior)
  | none => .error .notApplicable

/-- The interior of a polygon at a position. -/
def interior (i : Nat) (c : Component) : Except PartFault Component :=
  match c.asPolygon? with
  | some p => (part p.interiors i).map ring
  | none => .error .notApplicable

/-- The coordinates of a point, a line string or a ring. -/
def coordinates? : Component → Option (List Coordinate)
  | geometry (.point c) => some c.toList
  | geometry (.lineString cs) => some cs
  | geometry (.linearRing cs) => some cs
  | point c => some c.toList
  | line cs => some cs
  | ring cs => some cs
  | _ => none

/-- The coordinate of a point, a line string or a ring at a position. -/
def coordinate (i : Nat) (c : Component) : Except PartFault Coordinate :=
  match c.coordinates? with
  | some cs => part cs i
  | none => .error .notApplicable

/-- The kind of geometry that a component is or could be. -/
def kind : Component → Kind
  | geometry g => g.kind
  | point _ => .point
  | line _ => .lineString
  | ring _ => .linearRing
  | polygon _ => .polygon

/-- Whether the component is empty. -/
def isEmpty : Component → Bool
  | geometry g => g.isEmpty
  | point c => c.isNone
  | line cs => cs.isEmpty
  | ring cs => cs.isEmpty
  | polygon p => p.isEmpty

/-- How many parts the component has: coordinates, interiors of a polygon, or members. -/
def size : Component → Nat
  | geometry (.point c) => c.toList.length
  | geometry (.lineString cs) => cs.length
  | geometry (.linearRing cs) => cs.length
  | geometry (.polygon p) => p.interiors.length
  | geometry (.multiPoint ps) => ps.length
  | geometry (.multiLineString ls) => ls.length
  | geometry (.multiPolygon ps) => ps.length
  | geometry (.collection gs) => gs.length
  | point c => c.toList.length
  | line cs => cs.length
  | ring cs => cs.length
  | polygon p => p.interiors.length

end Component

end LatLonText
