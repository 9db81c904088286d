/-
# What is written of a geometry

The holes of an empty polygon are not written: the pieces of a geometry are
those of the geometry without them (`Style.geometry_written`), and the
coordinates of these pieces are the geometry's without them, in order
(`Style.places_geometry`).

The holes still count when the ordinates are looked for, and that is the one way
in which they show. If with them more ordinates are found than without, then
every token and every coordinate is longer, so the two texts differ as soon as
there is a token or a coordinate in them (`Style.Less.length_geometry_lt`).

Key definitions: `Piece.places`, `Style.Less`.
Key theorems: `Style.geometry_written`, `Style.places_geometry`,
`Config.write_written_eq_iff`.
-/
import LatLonText.Proofs.Alike
import LatLonText.Proofs.Config
import LatLonText.Proofs.Delimited
import LatLonText.Proofs.Presence
import Mathlib.Algebra.Order.BigOperators.Group.List

namespace LatLonText

/-! ### The holes of empty polygons -/

namespace Style

variable (s : Style)

theorem parts_map_congr {α : Type} (level : Nat) {part : Nat → Bool → α → List Piece} {f : α → α}
    {as : List α} (h : ∀ a ∈ as, ∀ n own, part n own (f a) = part n own a) :
    parts level part (as.map f) = parts level part as := by
  cases as with
  | nil => rfl
  | cons a as =>
    obtain ⟨ha, has⟩ := List.forall_mem_cons.mp h
    have hlater : (as.map f).flatMap (fun b => .separator :: part (level + 1) true b) =
        as.flatMap fun b => .separator :: part (level + 1) true b := by
      rw [List.flatMap_map]
      exact List.flatMap_congr fun b hb => by rw [has b hb]
    rw [List.map_cons, parts, parts, ha, hlater]

theorem polygon_written (level : Nat) (own : Bool) (p : Polygon) :
    s.polygon level own p.written = s.polygon level own p := by
  by_cases hempty : p.isEmpty = true
  · unfold polygon
    rw [p.isEmpty_written, if_pos hempty, if_pos hempty]
  · rw [p.written_of_not_isEmpty hempty]

theorem geometry_written_of_body {level : Nat} {g : Geometry}
    (h : s.body level g.written = s.body level g) :
    s.geometry level g.written = s.geometry level g := by
  rw [geometry_eq, geometry_eq, g.kind_written, h]

theorem body_written (level : Nat) (g : Geometry) : s.body level g.written = s.body level g := by
  induction g generalizing level with
  | polygon p => exact s.polygon_written level false p
  | multiPolygon ps => exact parts_map_congr level fun p _ n own => s.polygon_written n own p
  | collection gs ih =>
    rw [Geometry.written_collection]
    exact parts_map_congr level fun g hg n _ => s.geometry_written_of_body (ih g hg n)
  | _ => rfl

/-- **The holes of empty polygons are not written**, under any style and at any level. -/
theorem geometry_written (level : Nat) (g : Geometry) :
    s.geometry level g.written = s.geometry level g :=
  s.geometry_written_of_body (s.body_written level g)

end Style

/-! ### The coordinates of pieces -/

/-- The coordinate that a piece is, as its places. -/
def Piece.places : Piece → List (List Slot)
  | .coordinate places => [places]
  | _ => []

/-- Line breaks hold no coordinates. -/
theorem Broken.flatMap_places {pretty : Bool} {ps qs : List Piece} (h : Broken pretty ps qs) :
    ps.flatMap Piece.places = qs.flatMap Piece.places := by
  induction h with
  | nil => rfl
  | keep _ _ ih => rw [List.flatMap_cons, List.flatMap_cons, ih]
  | add n _ _ _ ih =>
    rw [List.flatMap_cons, List.flatMap_cons, List.flatMap_cons, ih]
    rfl

namespace Style

variable (s : Style)

/-- The coordinates of a group are those of its parts. -/
theorem places_group (parts : List (List Piece)) :
    (group parts).flatMap Piece.places = parts.flatMap (List.flatMap Piece.places) := by
  cases parts with
  | nil => rfl
  | cons p ps =>
    have hlater : (ps.flatMap (.separator :: ·)).flatMap Piece.places =
        ps.flatMap (List.flatMap Piece.places) := by
      rw [List.flatMap_assoc]
      rfl
    simp [group, hlater, Piece.places]

theorem places_flatSequence (cs : List Coordinate) :
    (s.flatSequence cs).flatMap Piece.places = cs.map s.slots := by
  rw [flatSequence, places_group, List.flatMap_map, List.map_eq_flatMap]
  rfl

theorem places_flatSequences (seqs : List (List Coordinate)) :
    (group (seqs.map s.flatSequence)).flatMap Piece.places = seqs.flatten.map s.slots := by
  rw [places_group, List.flatMap_map, List.map_flatten, List.flatMap_def]
  exact congrArg _ (List.map_congr_left fun cs _ => s.places_flatSequence cs)

theorem places_flatPolygon (p : Polygon) :
    (s.flatPolygon p).flatMap Piece.places = p.written.rings.flatten.map s.slots := by
  unfold flatPolygon Polygon.written
  split
  · rfl
  · exact s.places_flatSequences p.rings

theorem places_flat_of_body {g : Geometry}
    (h : (s.flatBody g).flatMap Piece.places = g.written.coordinates.map s.slots) :
    (s.flat g).flatMap Piece.places = g.written.coordinates.map s.slots := by
  have htoken : s.flatToken.flatMap Piece.places = [] := by
    unfold flatToken
    split <;> rfl
  rw [flat_eq, List.cons_append, List.flatMap_cons, List.flatMap_append, htoken, h]
  rfl

theorem places_flatBody (g : Geometry) :
    (s.flatBody g).flatMap Piece.places = g.written.coordinates.map s.slots := by
  have hsequence : ∀ cs : List Coordinate,
      (s.flatSequence cs).flatMap Piece.places = [cs].flatten.map s.slots := fun cs => by
    rw [s.places_flatSequence, List.flatten_singleton]
  induction g with
  | point c => exact hsequence c.toList
  | lineString cs => exact hsequence cs
  | linearRing cs => exact hsequence cs
  | polygon p => exact s.places_flatPolygon p
  | multiPoint ps =>
    have h := s.places_flatSequences (ps.map Option.toList)
    rw [List.map_map] at h
    exact h
  | multiLineString ls => exact s.places_flatSequences ls
  | multiPolygon ps =>
    rw [flatBody, places_group, Geometry.written, Geometry.coordinates_multiPolygon,
      List.flatMap_map, List.flatMap_map, List.map_flatMap]
    exact List.flatMap_congr fun p _ => s.places_flatPolygon p
  | collection gs ih =>
    rw [flatBody, places_group, Geometry.written_collection, Geometry.coordinates_collection,
      List.flatMap_map, List.flatMap_map, List.map_flatMap]
    exact List.flatMap_congr fun g hg => s.places_flat_of_body (ih g hg)

/-- **The coordinates of the pieces are those of the geometry** as far as it is written, in
order. -/
theorem places_geometry (level : Nat) (g : Geometry) :
    (s.geometry level g).flatMap Piece.places = g.written.coordinates.map s.slots :=
  (s.geometry_broken level g).flatMap_places.trans (s.places_flat_of_body (s.places_flatBody g))

theorem eq_slots_of_mem_geometry {level : Nat} {g : Geometry} {places : List Slot}
    (h : .coordinate places ∈ s.geometry level g) :
    ∃ c ∈ g.written.coordinates, s.slots c = places := by
  have hplaces : places ∈ (s.geometry level g).flatMap Piece.places :=
    List.mem_flatMap.mpr ⟨_, h, List.mem_singleton_self places⟩
  rw [places_geometry] at hplaces
  exact List.mem_map.mp hplaces

theorem mem_geometry_of_mem_written {level : Nat} {g : Geometry} {c : Coordinate}
    (h : c ∈ g.written.coordinates) : .coordinate (s.slots c) ∈ s.geometry level g := by
  have hplaces := List.mem_map_of_mem (f := s.slots) h
  rw [← s.places_geometry level, List.mem_flatMap] at hplaces
  obtain ⟨p, hp, hplaces⟩ := hplaces
  cases p with
  | coordinate places => rwa [List.mem_singleton.mp hplaces]
  | _ => nomatch hplaces

/-! ### More ordinates make a longer text -/

/-- A style that takes fewer ordinates than another one, and is else the same. -/
structure Less (t s : Style) : Prop where
  layout : t.layout = s.layout
  writesToken : t.writesToken = s.writesToken
  z : t.ordinates.z = true → s.ordinates.z = true
  m : t.ordinates.m = true → s.ordinates.m = true
  ne : ¬ (t.ordinates.z = s.ordinates.z ∧ t.ordinates.m = s.ordinates.m)

/-- How long the text of a coordinate is: its places, with blanks between them. -/
theorem length_project_coordinate (spelling : Spelling) (y x z m : Slot) :
    (spelling.pieces (s.project (.coordinate [y, x, z, m]))).length =
      (spelling.slot y).length + ((spelling.slot x).length + 1)
        + (if s.ordinates.z then (spelling.slot z).length + 1 else 0)
        + (if s.ordinates.m then (spelling.slot m).length + 1 else 0) := by
  rw [project, Spelling.pieces_coordinate, List.cons_append, List.cons_append,
    Spelling.slots_cons]
  cases s.ordinates.z <;> cases s.ordinates.m <;> simp <;> omega

theorem length_project_token (spelling : Spelling) (o : Ordinates) :
    (spelling.pieces (s.project (.token o))).length =
      if s.writesToken then s.ordinates.token.toList.length else 0 := by
  rw [project, Spelling.pieces_flatToken]
  split <;> rfl

namespace Less

variable {s t : Style} (h : t.Less s) (spelling : Spelling)

include h

theorem full_eq : t.full = s.full :=
  congrArg (Style.mk .xyzm true) h.layout

theorem length_token_lt : t.ordinates.token.toList.length < s.ordinates.token.toList.length := by
  have hz := h.z
  have hm := h.m
  have hne := h.ne
  unfold Ordinates.token
  revert hz hm hne
  cases t.ordinates.z <;> cases t.ordinates.m <;> cases s.ordinates.z <;> cases s.ordinates.m <;>
    decide

theorem length_coordinate_lt (y x z m : Slot) :
    (spelling.pieces (t.project (.coordinate [y, x, z, m]))).length <
      (spelling.pieces (s.project (.coordinate [y, x, z, m]))).length := by
  have hz := h.z
  have hm := h.m
  have hne := h.ne
  rw [length_project_coordinate, length_project_coordinate]
  revert hz hm hne
  cases t.ordinates.z <;> cases t.ordinates.m <;> cases s.ordinates.z <;> cases s.ordinates.m <;>
    simp
  -- M alone against Z and M, where the places of M cancel
  omega

/-- No piece is shorter with more ordinates. -/
theorem length_piece_le {level : Nat} {g : Geometry} {p : Piece}
    (hp : p ∈ s.full.geometry level g) :
    (spelling.pieces (t.project p)).length ≤ (spelling.pieces (s.project p)).length := by
  cases p with
  | token o =>
    rw [length_project_token, length_project_token, h.writesToken]
    split
    · exact Nat.le_of_lt h.length_token_lt
    · exact Nat.le_refl 0
  | coordinate places =>
    obtain ⟨c, _, rfl⟩ := s.full.eq_slots_of_mem_geometry hp
    rw [s.slots_full]
    exact Nat.le_of_lt (h.length_coordinate_lt spelling _ _ _ _)
  | _ => exact Nat.le_refl _

/-- **With more ordinates the text is longer**, if it has a token or a coordinate. -/
theorem length_geometry_lt {g : Geometry}
    (hmore : s.writesToken = true ∨ g.written.coordinates ≠ []) :
    (spelling.pieces (t.geometry 0 g)).length < (spelling.pieces (s.geometry 0 g)).length := by
  have hlonger : ∃ p ∈ s.full.geometry 0 g,
      (spelling.pieces (t.project p)).length < (spelling.pieces (s.project p)).length := by
    rcases hmore with htoken | hcoordinate
    · refine ⟨.token .xyzm, ?_, ?_⟩
      · rw [geometry_eq]
        exact List.mem_append_left _ (List.mem_append_right _ (List.mem_cons_of_mem _
          (List.mem_singleton_self _)))
      · rw [length_project_token, length_project_token, h.writesToken, if_pos htoken,
          if_pos htoken]
        exact h.length_token_lt
    · obtain ⟨c, hc⟩ := List.exists_mem_of_ne_nil _ hcoordinate
      refine ⟨_, s.full.mem_geometry_of_mem_written hc, ?_⟩
      rw [s.slots_full]
      exact h.length_coordinate_lt spelling _ _ _ _
  have hlength : ∀ u : Style, (spelling.pieces (u.geometry 0 g)).length =
      ((u.full.geometry 0 g).map fun p => (spelling.pieces (u.project p)).length).sum := fun u => by
    rw [← u.flatMap_project, Spelling.pieces, List.flatMap_assoc, List.length_flatMap]
    rfl
  rw [hlength, hlength, h.full_eq]
  exact List.sum_lt_sum _ _ (fun p hp => h.length_piece_le spelling hp) hlonger

/-- Without tokens and coordinates the text is the same. -/
theorem geometry_eq_of_nil {g : Geometry} (htoken : s.writesToken = false)
    (hnil : g.written.coordinates = []) (level : Nat) :
    t.geometry level g = s.geometry level g := by
  rw [← t.flatMap_project, ← s.flatMap_project, h.full_eq]
  refine List.flatMap_congr fun p hp => ?_
  cases p with
  | token o => simp [project, flatToken, h.writesToken, htoken]
  | coordinate places =>
    obtain ⟨c, hc, _⟩ := s.full.eq_slots_of_mem_geometry hp
    rw [hnil] at hc
    nomatch hc
  | _ => rfl

end Less

end Style

/-! ### The text without the holes of empty polygons -/

/-- Fewer coordinates have no more ordinates. -/
theorem Presence.presentIn_mono (requested : Ordinates) (mImpliesZ : Bool) {cs ds : List Coordinate}
    (h : cs ⊆ ds) :
    ((presentIn requested mImpliesZ cs).z = true → (presentIn requested mImpliesZ ds).z = true) ∧
    ((presentIn requested mImpliesZ cs).m = true →
      (presentIn requested mImpliesZ ds).m = true) := by
  have hany : ∀ has : Coordinate → Bool, cs.any has = true → ds.any has = true := fun has hcs => by
    obtain ⟨c, hc, hhas⟩ := List.any_eq_true.mp hcs
    exact List.any_eq_true.mpr ⟨c, h hc, hhas⟩
  have hz := hany Coordinate.hasZ
  have hm := hany Coordinate.hasM
  simp only [z_presentIn, m_presentIn, Bool.or_eq_true, Bool.and_eq_true]
  exact ⟨Or.imp (And.imp_right hz) (And.imp_right hm), And.imp_right hm⟩

namespace Config

variable (c : Config)

theorem less_written {g : Geometry}
    (hne : c.effectiveOrdinates g.written ≠ c.effectiveOrdinates g) :
    (c.style g.written).Less (c.style g) := by
  obtain ⟨hz, hm⟩ := Presence.presentIn_mono c.ordinates c.dialect.mImpliesZ
    g.coordinates_written_subset
  refine ⟨rfl, rfl, ?_, ?_, fun hsame => hne (Geometry.presentOrdinates_ext hsame.1 hsame.2)⟩
  · simpa only [style, effectiveOrdinates, Geometry.presentOrdinates_eq] using hz
  · simpa only [style, effectiveOrdinates, Geometry.presentOrdinates_eq] using hm

/-- **How the holes of empty polygons show.** They are not written, but the ordinates that they have
are found with the others: under these ordinates the pieces of a geometry are those of the geometry
without them. So without them the text is the same exactly if the same ordinates are found, or if
neither a token nor a coordinate is written. -/
theorem write_written_eq_iff (g : Geometry) :
    (c.style g).geometry 0 g.written = c.pieces g ∧
    (c.write g.written = c.write g ↔
      c.effectiveOrdinates g.written = c.effectiveOrdinates g ∨
        (c.dialect.writesToken = false ∧ g.written.coordinates = [])) := by
  have hwritten : c.pieces g.written = (c.style g.written).geometry 0 g :=
    (c.style g.written).geometry_written 0 g
  refine ⟨(c.style g).geometry_written 0 g, fun hwrite => ?_, fun h => ?_⟩
  · by_contra hneither
    obtain ⟨hne, hmore⟩ := not_or.mp hneither
    have hlonger : (c.style g).writesToken = true ∨ g.written.coordinates ≠ [] := by
      by_cases htoken : c.dialect.writesToken = true
      · exact .inl htoken
      · exact .inr fun hnil => hmore ⟨by simpa using htoken, hnil⟩
    have hlength := (c.less_written hne).length_geometry_lt c.spelling hlonger
    have htext : c.text g.written = c.text g := String.ofList_injective hwrite
    rw [text, text, hwritten] at htext
    exact absurd (congrArg List.length htext) (Nat.ne_of_lt hlength)
  · have hpieces : c.pieces g.written = c.pieces g := by
      by_cases hsame : c.effectiveOrdinates g.written = c.effectiveOrdinates g
      · rw [hwritten, style, hsame]
        rfl
      · obtain ⟨htoken, hnil⟩ := h.resolve_left hsame
        rw [hwritten]
        exact (c.less_written hsame).geometry_eq_of_nil htoken hnil 0
    rw [write, write, text, text, hpieces]

/-- A hole with a Z under an empty exterior makes a token and a missing ordinate elsewhere. -/
theorem not_forall_write_written_eq :
    ¬ ∀ c : Config, c.Obtainable → ∀ g : Geometry, c.write g.written = c.write g := by
  intro h
  let c : Config := { Config.default with ordinates := .xyz }
  let zero : Ordinate := ⟨0⟩
  let g : Geometry :=
    .collection [.polygon ⟨[], [[.xyz zero zero zero]]⟩, .point (some (.xy zero zero))]
  have hbuild : (Settings.ofConfig c).build = .ok c := by
    dsimp only [c]
    rfl
  have hwritten : (c.write g.written).toList =
      "GEOMETRYCOLLECTION (POLYGON EMPTY, POINT (0 0))".toList := by decide +kernel
  have hwhole : (c.write g).toList =
      "GEOMETRYCOLLECTION Z (POLYGON Z EMPTY, POINT Z (0 0 NaN))".toList := by decide +kernel
  rw [h c (.built hbuild) g, hwhole] at hwritten
  exact absurd hwritten (by decide)

end Config

end LatLonText
