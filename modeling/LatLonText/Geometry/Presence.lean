/-
# Which ordinates a geometry has

Of the ordinates asked for, only those are written that at least one coordinate
has. They are found by a visitor that is done as soon as it has found all it was
asked for. Where M implies Z, finding an M adds Z as well, asked for or not.

Key definitions: `Presence.visitor`, `Geometry.presentOrdinates`.
-/
import LatLonText.Geometry.Visit
import LatLonText.Ordinates

namespace LatLonText

namespace Presence

/-- Adds to the ordinates found what a coordinate has of those still looked for. -/
def note (requested : Ordinates) (mImpliesZ : Bool) (found : Ordinates) (c : Coordinate) :
    Ordinates :=
  let found := if requested.z && !found.z && !c.z.isNaN then found.withZ else found
  if requested.m && !found.m && !c.m.isNaN then
    if mImpliesZ then found.withM.withZ else found.withM
  else found

/-- Looks for the requested ordinates. -/
def visitor (requested : Ordinates) (mImpliesZ : Bool) : Visitor Ordinates where
  step found coordinates i :=
    match coordinates[i]? with
    | some c => note requested mImpliesZ found c
    | none => found
  done found := found == requested

end Presence

/-- The ordinates among those requested that some coordinate of the geometry has; X and Y always
are. -/
def Geometry.presentOrdinates (requested : Ordinates) (mImpliesZ : Bool) (g : Geometry) :
    Ordinates :=
  g.visit (Presence.visitor requested mImpliesZ) .xy

end LatLonText
