/-
# The pieces of a geometry, without the layout

Every geometry is written as a heading and a body (`geometry_eq`), and so are
the members of a collection. Without line breaks the pieces do not depend on
levels: a body is `EMPTY` or a group, the parts in parentheses with commas
between them (`Style.flat`). The layout only adds line breaks to this, which
`LatLonText.Proofs.Breaks` shows.

Key definitions: `Style.body`, `group`, `Style.flat`, `Style.flatBody`.
Key theorems: `Style.geometry_eq`, `Style.flat_eq`, `Style.flat_layout`.
-/
import LatLonText.Proofs.Geometry
import LatLonText.Text.Writer

namespace LatLonText

namespace Style

variable (s : Style)

/-- What stands behind the heading of a geometry. -/
def body (level : Nat) : Geometry → List Piece
  | .point c => s.sequence level false c.toList
  | .lineString cs => s.sequence level false cs
  | .linearRing cs => s.sequence level false cs
  | .polygon p => s.polygon level false p
  | .multiPoint ps => s.elements level (fun c => s.sequence level false c.toList) ps
  | .multiLineString ls => parts level s.sequence ls
  | .multiPolygon ps => parts level s.polygon ps
  | .collection gs => parts level (fun level _ g => s.geometry level g) gs

theorem laterMembers_eq (level : Nat) : ∀ gs : List Geometry,
    s.laterMembers level gs = gs.flatMap fun g => .separator :: s.geometry level g
  | [] => rfl
  | g :: gs => by
    rw [laterMembers, laterMembers_eq level gs, List.flatMap_cons]

theorem geometry_eq (level : Nat) (g : Geometry) :
    s.geometry level g = s.heading level g.kind ++ s.body level g := by
  cases g with
  | collection gs =>
    cases gs with
    | nil => rfl
    | cons g gs =>
      simp [geometry, laterMembers_eq, body, parts, Geometry.kind]
  | _ => rfl

/-! ### On one line -/

/-- Parts in parentheses with commas between them. -/
def group : List (List Piece) → List Piece
  | [] => [.empty]
  | p :: ps => .opening :: p ++ ps.flatMap (.separator :: ·) ++ [.closing]

/-- A sequence of coordinates on one line. -/
def flatSequence (cs : List Coordinate) : List Piece :=
  group (cs.map fun c => [.coordinate (s.slots c)])

/-- A polygon on one line. -/
def flatPolygon (p : Polygon) : List Piece :=
  if p.isEmpty then [.empty] else group (p.rings.map s.flatSequence)

/-- The token of the ordinates, where it is written. -/
def flatToken : List Piece :=
  if s.writesToken then [.token s.ordinates] else []

mutual

/-- A geometry on one line. -/
def flat : Geometry → List Piece
  | .point c => .tag .point :: s.flatToken ++ s.flatSequence c.toList
  | .lineString cs => .tag .lineString :: s.flatToken ++ s.flatSequence cs
  | .linearRing cs => .tag .linearRing :: s.flatToken ++ s.flatSequence cs
  | .polygon p => .tag .polygon :: s.flatToken ++ s.flatPolygon p
  | .multiPoint ps =>
    .tag .multiPoint :: s.flatToken ++ group (ps.map fun c => s.flatSequence c.toList)
  | .multiLineString ls => .tag .multiLineString :: s.flatToken ++ group (ls.map s.flatSequence)
  | .multiPolygon ps => .tag .multiPolygon :: s.flatToken ++ group (ps.map s.flatPolygon)
  | .collection gs => .tag .collection :: s.flatToken ++ group (flats gs)

/-- Geometries, each on one line. -/
def flats : List Geometry → List (List Piece)
  | [] => []
  | g :: gs => flat g :: flats gs

end

/-- What stands behind the heading of a geometry, on one line. -/
def flatBody : Geometry → List Piece
  | .point c => s.flatSequence c.toList
  | .lineString cs => s.flatSequence cs
  | .linearRing cs => s.flatSequence cs
  | .polygon p => s.flatPolygon p
  | .multiPoint ps => group (ps.map fun c => s.flatSequence c.toList)
  | .multiLineString ls => group (ls.map s.flatSequence)
  | .multiPolygon ps => group (ps.map s.flatPolygon)
  | .collection gs => group (gs.map s.flat)

theorem flats_eq : ∀ gs : List Geometry, s.flats gs = gs.map s.flat
  | [] => rfl
  | g :: gs => by rw [flats, flats_eq gs, List.map_cons]

theorem flat_eq (g : Geometry) : s.flat g = .tag g.kind :: s.flatToken ++ s.flatBody g := by
  cases g with
  | collection gs => rw [flat, flats_eq]; rfl
  | _ => rfl

/-- On one line the layout does not matter. -/
theorem flat_layout (o : Ordinates) (token : Bool) (l l' : Layout) (g : Geometry) :
    (Style.mk o token l).flat g = (Style.mk o token l').flat g := by
  induction g with
  | collection gs ih =>
    have hmembers : gs.map (Style.mk o token l).flat = gs.map (Style.mk o token l').flat :=
      List.map_congr_left ih
    rw [flat_eq, flat_eq, flatBody, flatBody, hmembers]
    rfl
  | _ => rfl

end Style

end LatLonText
