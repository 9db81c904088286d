/-
# Geometries and what they hold

Collections nest, so what is true of all geometries is shown by an induction
that reaches the members of a collection (`Geometry.induction`). A geometry
holds sequences of coordinates, at any depth, and its coordinates are those of
its sequences one after the other. Its coordinates may be replaced one by one,
and the rings that are never written may be left out.

Key definitions: `Geometry.sequences`, `Geometry.coordinates`,
`Geometry.mapCoordinates`, `Geometry.written`.
Key theorems: `Geometry.induction`, `Geometry.sequences_collection`,
`Geometry.coordinates_mapCoordinates`, `Geometry.coordinates_written_subset`.
-/
import LatLonText.Geometry.Basic
import Mathlib.Data.List.Basic

namespace LatLonText

namespace Geometry

/-- What holds of the geometries that are no collection, and of a collection if it holds of its
members, holds of all. -/
@[induction_eliminator]
theorem induction {motive : Geometry → Prop}
    (point : ∀ c, motive (.point c))
    (lineString : ∀ cs, motive (.lineString cs))
    (linearRing : ∀ cs, motive (.linearRing cs))
    (polygon : ∀ p, motive (.polygon p))
    (multiPoint : ∀ ps, motive (.multiPoint ps))
    (multiLineString : ∀ ls, motive (.multiLineString ls))
    (multiPolygon : ∀ ps, motive (.multiPolygon ps))
    (collection : ∀ gs, (∀ g ∈ gs, motive g) → motive (.collection gs)) (g : Geometry) :
    motive g :=
  match g with
  | .point c => point c
  | .lineString cs => lineString cs
  | .linearRing cs => linearRing cs
  | .polygon p => polygon p
  | .multiPoint ps => multiPoint ps
  | .multiLineString ls => multiLineString ls
  | .multiPolygon ps => multiPolygon ps
  | .collection gs => collection gs fun g _ =>
    induction point lineString linearRing polygon multiPoint multiLineString multiPolygon
      collection g
termination_by sizeOf g
decreasing_by
  have := List.sizeOf_lt_of_mem ‹g ∈ gs›
  simp only [Geometry.collection.sizeOf_spec]
  omega

/-! ### Sequences and coordinates -/

mutual

/-- The sequences of coordinates in a geometry, in document order. -/
def sequences : Geometry → List (List Coordinate)
  | .point c => [c.toList]
  | .lineString cs => [cs]
  | .linearRing cs => [cs]
  | .polygon p => p.rings
  | .multiPoint ps => ps.map Option.toList
  | .multiLineString ls => ls
  | .multiPolygon ps => ps.flatMap Polygon.rings
  | .collection gs => memberSequences gs

/-- The sequences of coordinates in geometries, one after the other. -/
def memberSequences : List Geometry → List (List Coordinate)
  | [] => []
  | g :: gs => sequences g ++ memberSequences gs

end

theorem memberSequences_eq : ∀ gs : List Geometry, memberSequences gs = gs.flatMap sequences
  | [] => rfl
  | g :: gs => by rw [memberSequences, memberSequences_eq gs, List.flatMap_cons]

@[simp]
theorem sequences_collection (gs : List Geometry) :
    (collection gs).sequences = gs.flatMap sequences := by
  rw [sequences, memberSequences_eq]

/-- All coordinates of a geometry, at any depth and in any ring, in document order. -/
def coordinates (g : Geometry) : List Coordinate :=
  g.sequences.flatten

theorem coordinates_multiPolygon (ps : List Polygon) :
    (multiPolygon ps).coordinates = ps.flatMap fun p => p.rings.flatten := by
  rw [coordinates, sequences, ← List.flatMap_id, List.flatMap_assoc]
  simp only [List.flatMap_id]

@[simp]
theorem coordinates_collection (gs : List Geometry) :
    (collection gs).coordinates = gs.flatMap coordinates := by
  rw [coordinates, sequences_collection, ← List.flatMap_id, List.flatMap_assoc]
  exact List.flatMap_congr fun g _ => List.flatMap_id

end Geometry

/-! ### Other geometries of the same structure -/

namespace Polygon

/-- The polygon with each coordinate replaced. -/
def mapCoordinates (f : Coordinate → Coordinate) (p : Polygon) : Polygon :=
  ⟨p.exterior.map f, p.interiors.map (List.map f)⟩

/-- The rings that are written: without an exterior, the others are not. -/
def writtenRings (p : Polygon) : List (List Coordinate) :=
  if p.isEmpty then [] else p.rings

/-- The polygon as far as it is written. -/
def written (p : Polygon) : Polygon :=
  if p.isEmpty then empty else p

theorem written_eq_ofRings (p : Polygon) : p.written = ofRings p.writtenRings := by
  unfold written writtenRings
  split
  · rfl
  · exact (ofRings_rings p).symm

theorem writtenRings_mapCoordinates (f : Coordinate → Coordinate) (p : Polygon) :
    (p.mapCoordinates f).writtenRings = p.writtenRings.map (List.map f) := by
  obtain ⟨exterior, interiors⟩ := p
  cases exterior <;> rfl

theorem isEmpty_mapCoordinates (f : Coordinate → Coordinate) (p : Polygon) :
    (p.mapCoordinates f).isEmpty = p.isEmpty :=
  List.isEmpty_map

theorem isEmpty_written (p : Polygon) : p.written.isEmpty = p.isEmpty := by
  obtain ⟨exterior, interiors⟩ := p
  cases exterior <;> rfl

theorem written_of_not_isEmpty {p : Polygon} (h : ¬ p.isEmpty = true) : p.written = p :=
  if_neg h

/-- The polygon as far as it is written holds the coordinates of the rings that are written. -/
theorem flatten_rings_written (p : Polygon) : p.written.rings.flatten = p.writtenRings.flatten := by
  obtain ⟨exterior, interiors⟩ := p
  cases exterior <;> rfl

theorem writtenRings_subset (p : Polygon) : p.writtenRings ⊆ p.rings := by
  unfold writtenRings
  split
  · exact List.nil_subset _
  · exact List.Subset.refl _

end Polygon

namespace Geometry

mutual

/-- The geometry with each coordinate replaced. -/
def mapCoordinates (f : Coordinate → Coordinate) : Geometry → Geometry
  | .point c => .point (c.map f)
  | .lineString cs => .lineString (cs.map f)
  | .linearRing cs => .linearRing (cs.map f)
  | .polygon p => .polygon (p.mapCoordinates f)
  | .multiPoint ps => .multiPoint (ps.map (Option.map f))
  | .multiLineString ls => .multiLineString (ls.map (List.map f))
  | .multiPolygon ps => .multiPolygon (ps.map (Polygon.mapCoordinates f))
  | .collection gs => .collection (mapMembers f gs)

/-- Geometries with each coordinate replaced. -/
def mapMembers (f : Coordinate → Coordinate) : List Geometry → List Geometry
  | [] => []
  | g :: gs => mapCoordinates f g :: mapMembers f gs

end

theorem mapMembers_eq (f : Coordinate → Coordinate) : ∀ gs : List Geometry,
    mapMembers f gs = gs.map (mapCoordinates f)
  | [] => rfl
  | g :: gs => by rw [mapMembers, mapMembers_eq f gs, List.map_cons]

@[simp]
theorem mapCoordinates_collection (f : Coordinate → Coordinate) (gs : List Geometry) :
    (collection gs).mapCoordinates f = collection (gs.map (mapCoordinates f)) := by
  rw [mapCoordinates, mapMembers_eq]

theorem kind_mapCoordinates (f : Coordinate → Coordinate) (g : Geometry) :
    (g.mapCoordinates f).kind = g.kind := by
  cases g with
  | collection gs => rw [mapCoordinates_collection]; rfl
  | _ => rfl

mutual

/-- The geometry as far as it is written, at any depth: without the holes of empty polygons. -/
def written : Geometry → Geometry
  | .polygon p => .polygon p.written
  | .multiPolygon ps => .multiPolygon (ps.map Polygon.written)
  | .collection gs => .collection (writtenMembers gs)
  | g => g

/-- Geometries as far as they are written. -/
def writtenMembers : List Geometry → List Geometry
  | [] => []
  | g :: gs => written g :: writtenMembers gs

end

theorem writtenMembers_eq : ∀ gs : List Geometry, writtenMembers gs = gs.map written
  | [] => rfl
  | g :: gs => by rw [writtenMembers, writtenMembers_eq gs, List.map_cons]

@[simp]
theorem written_collection (gs : List Geometry) :
    (collection gs).written = collection (gs.map written) := by
  rw [written, writtenMembers_eq]

theorem kind_written (g : Geometry) : g.written.kind = g.kind := by
  cases g with
  | collection gs => rw [written_collection]; rfl
  | _ => rfl

/-! ### Their coordinates -/

theorem sequences_mapCoordinates (f : Coordinate → Coordinate) (g : Geometry) :
    (g.mapCoordinates f).sequences = g.sequences.map (List.map f) := by
  induction g with
  | point c => cases c <;> rfl
  | multiPoint ps =>
    simp only [mapCoordinates, sequences, List.map_map]
    exact List.map_congr_left fun c _ => by cases c <;> rfl
  | multiPolygon ps =>
    simp only [mapCoordinates, sequences, List.flatMap_map, List.map_flatMap]
    rfl
  | collection gs ih =>
    simp only [mapCoordinates_collection, sequences_collection, List.flatMap_map, List.map_flatMap]
    exact List.flatMap_congr ih
  | _ => rfl

/-- Replacing coordinates one by one replaces those that the geometry holds. -/
theorem coordinates_mapCoordinates (f : Coordinate → Coordinate) (g : Geometry) :
    (g.mapCoordinates f).coordinates = g.coordinates.map f := by
  rw [coordinates, coordinates, sequences_mapCoordinates, List.map_flatten]

theorem mapCoordinates_id (g : Geometry) : g.mapCoordinates id = g := by
  have hpolygon : Polygon.mapCoordinates id = id := by
    funext p
    simp [Polygon.mapCoordinates]
  induction g with
  | collection gs ih =>
    rw [mapCoordinates_collection, List.map_congr_left ih, List.map_id']
  | _ => simp [mapCoordinates, hpolygon]

/-- What is written of a geometry has no coordinates but its own. -/
theorem coordinates_written_subset (g : Geometry) : g.written.coordinates ⊆ g.coordinates := by
  have hpolygon : ∀ p : Polygon, p.written.rings.flatten ⊆ p.rings.flatten := fun p c hc => by
    rw [p.flatten_rings_written] at hc
    obtain ⟨ring, hring, hc⟩ := List.mem_flatten.mp hc
    exact List.mem_flatten.mpr ⟨ring, p.writtenRings_subset hring, hc⟩
  induction g with
  | polygon p => exact hpolygon p
  | multiPolygon ps =>
    intro c hc
    rw [written, coordinates_multiPolygon, List.flatMap_map] at hc
    obtain ⟨p, hp, hc⟩ := List.mem_flatMap.mp hc
    rw [coordinates_multiPolygon]
    exact List.mem_flatMap.mpr ⟨p, hp, hpolygon p hc⟩
  | collection gs ih =>
    intro c hc
    rw [written_collection, coordinates_collection, List.flatMap_map] at hc
    obtain ⟨g, hg, hc⟩ := List.mem_flatMap.mp hc
    rw [coordinates_collection]
    exact List.mem_flatMap.mpr ⟨g, hg, ih g hg hc⟩
  | _ => exact List.Subset.refl _

end Geometry

end LatLonText
