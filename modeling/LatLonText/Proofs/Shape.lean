/-
# Shapes become geometries without loss

A shape and the geometry made of it have one outline: part by part the same kind,
the same count of coordinates and the same parts in order, where a line counts as
a line string and triangles and rectangles count as polygons
(`outline_toGeometry`). A visit of the geometry sees the positions of the shape in
document order, each on the axes that its dimensions name and on no other
(`toGeometry_keeps_outline_and_positions`).

A position answers for its ordinates by index, and its dimensions list the axes in
the order of the ordinates. So the index of an axis in that list is where its
ordinate is asked for (`Position.on`): the M of a position without Z is its third,
where another position has its Z.

Key definitions: `Dimensions.axes`, `Position.on`, `Outline`, `Shape.outline`,
`Shape.positions`, `Visitor.recorder`.
Key theorems: `Position.toCoordinate_eq`, `Shape.outline_toGeometry`,
`Shape.toGeometry_keeps_outline_and_positions`.
-/
import LatLonText.Proofs.Visit
import LatLonText.Wkt.Reader

namespace LatLonText

open Wkt (Axis)

/-! ### Positions by index -/

/-- The axes of a position in the order of its ordinates. Of ordinates that are only counted the
third is a Z and the fourth an M; any further one has no axis. -/
def Dimensions.axes : Dimensions → List Axis
  | xy => [.x, .y]
  | xyz => [.x, .y, .z]
  | xym => [.x, .y, .m]
  | xyzm => [.x, .y, .z, .m]
  | unknown _ => [.x, .y, .z, .m]

namespace Position

/-- What a position answers for the index of an axis among its axes; absent where it has no
ordinate, and on an axis that its dimensions do not name. -/
def on (p : Position) (a : Axis) : Ordinate :=
  match p.dimensions.axes.idxOf? a with
  | some i => (p.nth i).getD .absent
  | none => .absent

/-- **The coordinate of a position** has its X and Y, and on the other axes what the position has
there. -/
theorem toCoordinate_eq (p : Position) : p.toCoordinate = ⟨p.x, p.y, p.on .z, p.on .m⟩ := by
  unfold toCoordinate on
  cases p.dimensions <;> rfl

end Position

/-! ### Outlines -/

/-- The structure of a geometry: its kind, the count of its own coordinates, and its parts in
order. -/
inductive Outline where
  | node (kind : Kind) (coordinates : Nat) (parts : List Outline)

namespace Outline

/-- A part that is a sequence of coordinates. -/
def sequence (kind : Kind) (coordinates : Nat) : Outline :=
  node kind coordinates []

/-- A polygon by the counts of coordinates of its rings, the exterior first. -/
def polygon (rings : List Nat) : Outline :=
  node .polygon 0 (rings.map (sequence .linearRing))

/-- A geometry that holds nothing but parts. -/
def parts (kind : Kind) (ps : List Outline) : Outline :=
  node kind 0 ps

end Outline

/-- The outline of a polygon. -/
def Polygon.outline (p : Polygon) : Outline :=
  .polygon (p.rings.map List.length)

mutual

/-- The outline of a geometry. -/
def Geometry.outline : Geometry → Outline
  | .point c => .sequence .point c.toList.length
  | .lineString cs => .sequence .lineString cs.length
  | .linearRing cs => .sequence .linearRing cs.length
  | .polygon p => p.outline
  | .multiPoint ps => .parts .multiPoint (ps.map fun c => .sequence .point c.toList.length)
  | .multiLineString ls => .parts .multiLineString (ls.map fun cs => .sequence .lineString cs.length)
  | .multiPolygon ps => .parts .multiPolygon (ps.map Polygon.outline)
  | .collection gs => .parts .collection (Geometry.memberOutlines gs)

/-- The outlines of geometries, in order. -/
def Geometry.memberOutlines : List Geometry → List Outline
  | [] => []
  | g :: gs => Geometry.outline g :: Geometry.memberOutlines gs

end

theorem Geometry.memberOutlines_eq : ∀ gs : List Geometry, memberOutlines gs = gs.map outline
  | [] => rfl
  | g :: gs => by rw [memberOutlines, memberOutlines_eq gs, List.map_cons]

/-! ### Shapes -/

/-- The rings of a polygon, the exterior first; a missing exterior is a ring without positions. -/
def PolygonShape.rings (p : PolygonShape) : List (List Position) :=
  p.exterior.getD [] :: p.interiors

/-- The outline of the polygon that a shape describes. -/
def PolygonShape.outline (p : PolygonShape) : Outline :=
  .polygon (p.rings.map List.length)

namespace Shape

/-- What holds of the shapes that are no collection, and of a collection if it holds of its members,
holds of all. -/
@[induction_eliminator]
theorem induction {motive : Shape → Prop}
    (point : ∀ p, motive (.point p))
    (lineString : ∀ ps, motive (.lineString ps))
    (polygon : ∀ p, motive (.polygon p))
    (multiPoint : ∀ ps, motive (.multiPoint ps))
    (multiLineString : ∀ ls, motive (.multiLineString ls))
    (multiPolygon : ∀ ps, motive (.multiPolygon ps))
    (collection : ∀ ms, (∀ s ∈ ms, motive s) → motive (.collection ms))
    (line : ∀ a b, motive (.line a b))
    (triangle : ∀ a b c, motive (.triangle a b c))
    (rectangle : ∀ low high, motive (.rectangle low high)) (s : Shape) : motive s :=
  match s with
  | .point p => point p
  | .lineString ps => lineString ps
  | .polygon p => polygon p
  | .multiPoint ps => multiPoint ps
  | .multiLineString ls => multiLineString ls
  | .multiPolygon ps => multiPolygon ps
  | .collection ms => collection ms fun s _ =>
    induction point lineString polygon multiPoint multiLineString multiPolygon collection line
      triangle rectangle s
  | .line a b => line a b
  | .triangle a b c => triangle a b c
  | .rectangle low high => rectangle low high
termination_by sizeOf s
decreasing_by
  have := List.sizeOf_lt_of_mem ‹s ∈ ms›
  simp only [Shape.collection.sizeOf_spec]
  omega

mutual

/-- The outline of the geometry that a shape describes: a line is a line string of two, a triangle a
polygon with a ring of four, a rectangle one with a ring of five. -/
def outline : Shape → Outline
  | point p => .sequence .point p.toList.length
  | lineString ps => .sequence .lineString ps.length
  | polygon p => p.outline
  | multiPoint ps => .parts .multiPoint (ps.map fun p => .sequence .point p.toList.length)
  | multiLineString ls => .parts .multiLineString (ls.map fun ps => .sequence .lineString ps.length)
  | multiPolygon ps => .parts .multiPolygon (ps.map PolygonShape.outline)
  | collection ms => .parts .collection (memberOutlines ms)
  | line _ _ => .sequence .lineString 2
  | triangle _ _ _ => .polygon [4]
  | rectangle _ _ => .polygon [5]

/-- The outlines of shapes, in order. -/
def memberOutlines : List Shape → List Outline
  | [] => []
  | s :: ms => outline s :: memberOutlines ms

end

/-- The corners of a rectangle in X and Y, from the low one around and back to it. -/
def corners (low high : Position) : List Position :=
  [[low.x, low.y], [high.x, low.y], [high.x, high.y], [low.x, high.y], [low.x, low.y]].map
    (.ofOrdinates .xy)

mutual

/-- The positions of a shape in document order. -/
def positions : Shape → List Position
  | point p => p.toList
  | lineString ps => ps
  | polygon p => p.rings.flatten
  | multiPoint ps => ps.flatMap Option.toList
  | multiLineString ls => ls.flatten
  | multiPolygon ps => ps.flatMap fun p => p.rings.flatten
  | collection ms => memberPositions ms
  | line a b => [a, b]
  | triangle a b c => [a, b, c, a]
  | rectangle low high => corners low high

/-- The positions of shapes, one shape after the other. -/
def memberPositions : List Shape → List Position
  | [] => []
  | s :: ms => positions s ++ memberPositions ms

end

theorem toGeometries_eq : ∀ ms : List Shape, toGeometries ms = ms.map toGeometry
  | [] => rfl
  | s :: ms => by rw [toGeometries, toGeometries_eq ms, List.map_cons]

theorem memberOutlines_eq : ∀ ms : List Shape, memberOutlines ms = ms.map outline
  | [] => rfl
  | s :: ms => by rw [memberOutlines, memberOutlines_eq ms, List.map_cons]

theorem memberPositions_eq : ∀ ms : List Shape, memberPositions ms = ms.flatMap positions
  | [] => rfl
  | s :: ms => by rw [memberPositions, memberPositions_eq ms, List.flatMap_cons]

@[simp]
theorem toGeometry_collection (ms : List Shape) :
    (collection ms).toGeometry = .collection (ms.map toGeometry) := by
  rw [toGeometry, toGeometries_eq]

theorem rings_toPolygon (p : PolygonShape) :
    p.toPolygon.rings = p.rings.map (List.map Position.toCoordinate) := rfl

/-- **A geometry has the outline of its shape.** -/
theorem outline_toGeometry (s : Shape) : s.toGeometry.outline = s.outline := by
  have hpolygon : ∀ p : PolygonShape, p.toPolygon.outline = p.outline := by
    intro p
    rw [Polygon.outline, PolygonShape.outline, rings_toPolygon, List.map_map]
    exact congrArg _ (List.map_congr_left fun ring _ => List.length_map _)
  induction s with
  | point p =>
    simp only [toGeometry, Geometry.outline, outline, Option.toList_map, List.length_map]
  | lineString ps => simp only [toGeometry, Geometry.outline, outline, List.length_map]
  | polygon p => exact hpolygon p
  | multiPoint ps =>
    simp only [toGeometry, Geometry.outline, outline, List.map_map, Function.comp_def,
      Option.toList_map, List.length_map]
  | multiLineString ls =>
    simp only [toGeometry, Geometry.outline, outline, List.map_map, Function.comp_def,
      List.length_map]
  | multiPolygon ps =>
    simp only [toGeometry, Geometry.outline, outline, List.map_map, Function.comp_def, hpolygon]
  | collection ms ih =>
    rw [toGeometry_collection, Geometry.outline, Geometry.memberOutlines_eq, List.map_map, outline,
      memberOutlines_eq]
    exact congrArg _ (List.map_congr_left ih)
  | line a b => rfl
  | triangle a b c => rfl
  | rectangle low high => rfl

/-- **A geometry has the coordinates of its shape**, in document order. -/
theorem coordinates_toGeometry (s : Shape) :
    s.toGeometry.coordinates = s.positions.map Position.toCoordinate := by
  induction s with
  | point p =>
    simp [toGeometry, Geometry.coordinates, Geometry.sequences, positions, Option.toList_map]
  | lineString ps => simp [toGeometry, Geometry.coordinates, Geometry.sequences, positions]
  | polygon p =>
    simp only [toGeometry, Geometry.coordinates, Geometry.sequences, positions, rings_toPolygon,
      List.map_flatten]
  | multiPoint ps =>
    simp only [toGeometry, Geometry.coordinates, Geometry.sequences, positions, List.map_map,
      Function.comp_def, Option.toList_map, List.flatMap_def, List.map_flatten]
  | multiLineString ls =>
    simp only [toGeometry, Geometry.coordinates, Geometry.sequences, positions, List.map_flatten]
  | multiPolygon ps =>
    simp only [toGeometry, Geometry.coordinates_multiPolygon, positions, List.flatMap_map,
      List.map_flatMap, rings_toPolygon, List.map_flatten]
  | collection ms ih =>
    rw [toGeometry_collection, Geometry.coordinates_collection, List.flatMap_map, positions,
      memberPositions_eq, List.map_flatMap]
    exact List.flatMap_congr ih
  | line a b => rfl
  | triangle a b c => rfl
  | rectangle low high => rfl

end Shape

/-! ### What a visit sees -/

/-- Notes each coordinate that it is shown, and is never done. A place where there is no coordinate
would be noted as `none`. -/
def Visitor.recorder : Visitor (List (Option Coordinate)) where
  step seen cs i := seen ++ [cs[i]?]
  done _ := false

theorem Visitor.scanUntil_recorder : ∀ (cs : List Coordinate) (seen : List (Option Coordinate)),
    scanUntil recorder.done (fun seen c => seen ++ [some c]) cs seen = seen ++ cs.map some
  | [], seen => by simp [scanUntil]
  | c :: cs, seen => by
    have hdone : recorder.done seen = false := rfl
    rw [scanUntil, hdone, if_neg (by decide), scanUntil_recorder cs]
    simp

/-- A visit shows the coordinates of a geometry, in document order and each once. -/
theorem Geometry.visit_recorder (g : Geometry) :
    g.visit Visitor.recorder [] = g.coordinates.map some := by
  have hstep : ∀ seen cs i c, cs[i]? = some c → Visitor.recorder.step seen cs i = seen ++ [some c] := by
    intro seen cs i c hc
    simp [Visitor.recorder, hc]
  rw [visit_eq_scan hstep, Visitor.scanUntil_recorder, List.nil_append]

/-- **A shape becomes a geometry without loss.** Part by part the geometry is of the kind that the
shape is, with the same parts in the same order. A visit sees the positions of the shape in document
order, each once: with its X and Y, with the ordinates that its dimensions name, each on its axis, and
with nothing on the other axes. -/
theorem Shape.toGeometry_keeps_outline_and_positions (s : Shape) :
    s.toGeometry.outline = s.outline ∧
      s.toGeometry.visit Visitor.recorder [] =
        s.positions.map fun p => some ⟨p.x, p.y, p.on .z, p.on .m⟩ := by
  refine ⟨s.outline_toGeometry, ?_⟩
  rw [Geometry.visit_recorder, s.coordinates_toGeometry, List.map_map]
  refine List.map_congr_left fun p _ => ?_
  show some p.toCoordinate = _
  rw [p.toCoordinate_eq]

end LatLonText
