/-
# Geometries of one structure are written alike

What the writer does with a geometry hangs on its structure and on the layout;
the ordinates of a coordinate only fill the places of its piece, and a style
only decides which places there are and whether a token follows a tag. So if
two styles agree on the layout, and two readings of pieces agree on what a
coordinate becomes under one style and its image under the other, then they
agree on a whole geometry and its image (`Style.Alike.geometry`).

So all styles of one layout write parts of the same pieces: those of a style that
keeps all four ordinates and every token, of which each style takes its own
(`Style.flatMap_project`).

Key definitions: `Style.Alike`, `Style.full`, `Style.project`.
Key theorems: `Style.Alike.geometry`, `Style.flatMap_project`.
-/
import LatLonText.Proofs.Pieces

namespace LatLonText

/-- A piece that is the same under all styles: neither a token nor a coordinate. -/
def Piece.Plain : Piece → Prop
  | .token _ => False
  | .coordinate _ => False
  | _ => True

namespace Style

/-- Two styles and two readings of pieces for which a coordinate reads in the one as its image does
in the other. -/
structure Alike {β : Type} (s t : Style) (f : Coordinate → Coordinate)
    (read read' : Piece → List β) : Prop where
  layout : t.layout = s.layout
  plain : ∀ p : Piece, p.Plain → read p = read' p
  token : s.flatToken.flatMap read = t.flatToken.flatMap read'
  coordinate : ∀ c, read (.coordinate (s.slots c)) = read' (.coordinate (t.slots (f c)))

namespace Alike

variable {α γ β : Type} {s t : Style} {f : Coordinate → Coordinate} {read read' : Piece → List β}
  (h : s.Alike t f read read')

include h

/-! ### Breaks, elements and parts -/

theorem breakAt (level : Nat) :
    (s.layout.breakAt level).flatMap read = (t.layout.breakAt level).flatMap read' := by
  rw [h.layout]
  unfold Layout.breakAt
  split
  · rw [List.flatMap_singleton, List.flatMap_singleton, h.plain (.lineBreak _) trivial]
  · rfl

theorem wrapAt (i level : Nat) :
    (s.layout.wrapAt i level).flatMap read = (t.layout.wrapAt i level).flatMap read' := by
  have hbreak := h.breakAt level
  rw [h.layout] at hbreak ⊢
  unfold Layout.wrapAt
  split
  · exact hbreak
  · rfl

theorem laterElements (level : Nat) (image : α → γ) {element : α → List Piece}
    {element' : γ → List Piece}
    (he : ∀ a, (element a).flatMap read = (element' (image a)).flatMap read') :
    ∀ (as : List α) (i : Nat), (s.laterElements level element as i).flatMap read =
      (t.laterElements level element' (as.map image) i).flatMap read'
  | [], _ => rfl
  | a :: as, i => by
    simp only [Style.laterElements, List.map_cons, List.cons_append, List.flatMap_cons,
      List.flatMap_append, h.plain .separator trivial, h.wrapAt, he,
      laterElements level image he as (i + 1)]

theorem elements (level : Nat) (image : α → γ) {element : α → List Piece}
    {element' : γ → List Piece}
    (he : ∀ a, (element a).flatMap read = (element' (image a)).flatMap read')
    (as : List α) : (s.elements level element as).flatMap read =
      (t.elements level element' (as.map image)).flatMap read' := by
  cases as with
  | nil => simp only [Style.elements, List.map_nil, List.flatMap_singleton, h.plain .empty trivial]
  | cons a as =>
    simp only [Style.elements, List.map_cons, List.cons_append, List.flatMap_cons,
      List.flatMap_append, List.flatMap_nil, h.plain .opening trivial, h.plain .closing trivial, he,
      h.laterElements level image he]

theorem parts (level : Nat) {part : Nat → Bool → α → List Piece}
    {part' : Nat → Bool → γ → List Piece} {image : α → γ} {as : List α}
    (hp : ∀ a ∈ as, ∀ n own, (part n own a).flatMap read = (part' n own (image a)).flatMap read') :
    (Style.parts level part as).flatMap read =
      (Style.parts level part' (as.map image)).flatMap read' := by
  cases as with
  | nil => simp only [Style.parts, List.map_nil, List.flatMap_singleton, h.plain .empty trivial]
  | cons a as =>
    obtain ⟨ha, has⟩ := List.forall_mem_cons.mp hp
    have hlater : (as.flatMap fun b => .separator :: part (level + 1) true b).flatMap read =
        ((as.map image).flatMap fun b => .separator :: part' (level + 1) true b).flatMap read' := by
      rw [List.flatMap_assoc, List.flatMap_map, List.flatMap_assoc]
      refine List.flatMap_congr fun b hb => ?_
      rw [List.flatMap_cons, List.flatMap_cons, h.plain .separator trivial, has b hb]
    simp only [Style.parts, List.map_cons, List.cons_append, List.flatMap_cons, List.flatMap_append,
      List.flatMap_nil, h.plain .opening trivial, h.plain .closing trivial, ha, hlater]

/-! ### The parts of a geometry -/

theorem sequence (level : Nat) (own : Bool) (cs : List Coordinate) :
    (s.sequence level own cs).flatMap read = (t.sequence level own (cs.map f)).flatMap read' := by
  have hcoordinate : ∀ c : Coordinate, [Piece.coordinate (s.slots c)].flatMap read =
      [Piece.coordinate (t.slots (f c))].flatMap read' := fun c => by
    rw [List.flatMap_singleton, List.flatMap_singleton, h.coordinate]
  have helements : (s.elements level (fun c => [.coordinate (s.slots c)]) cs).flatMap read =
      (t.elements level (fun c => [.coordinate (t.slots c)]) (cs.map f)).flatMap read' :=
    h.elements level f hcoordinate cs
  unfold Style.sequence
  rw [List.flatMap_append, List.flatMap_append, helements, List.isEmpty_map]
  congr 1
  split
  · exact h.breakAt level
  · rfl

theorem polygon (level : Nat) (own : Bool) (p : Polygon) :
    (s.polygon level own p).flatMap read =
      (t.polygon level own (p.mapCoordinates f)).flatMap read' := by
  have hrings : (Style.parts level s.sequence p.rings).flatMap read =
      (Style.parts level t.sequence (p.mapCoordinates f).rings).flatMap read' :=
    h.parts level fun cs _ n own => h.sequence n own cs
  unfold Style.polygon
  rw [p.isEmpty_mapCoordinates]
  split
  · rw [List.flatMap_singleton, List.flatMap_singleton, h.plain .empty trivial]
  · rw [List.flatMap_append, List.flatMap_append, hrings]
    congr 1
    split
    · exact h.breakAt level
    · rfl

theorem heading (level : Nat) (kind : Kind) :
    (s.heading level kind).flatMap read = (t.heading level kind).flatMap read' := by
  have hs : s.heading level kind = s.layout.breakAt level ++ .tag kind :: s.flatToken := rfl
  have ht : t.heading level kind = t.layout.breakAt level ++ .tag kind :: t.flatToken := rfl
  rw [hs, ht, List.flatMap_append, List.flatMap_append, List.flatMap_cons, List.flatMap_cons,
    h.breakAt, h.plain (.tag kind) trivial, h.token]

theorem geometry_of_body {level : Nat} {g : Geometry} (hbody : (s.body level g).flatMap read =
    (t.body level (g.mapCoordinates f)).flatMap read') : (s.geometry level g).flatMap read =
      (t.geometry level (g.mapCoordinates f)).flatMap read' := by
  rw [geometry_eq, geometry_eq, List.flatMap_append, List.flatMap_append, h.heading, hbody,
    g.kind_mapCoordinates]

theorem body (level : Nat) (g : Geometry) : (s.body level g).flatMap read =
    (t.body level (g.mapCoordinates f)).flatMap read' := by
  have hpoint : ∀ (level : Nat) (c : Option Coordinate),
      (s.sequence level false c.toList).flatMap read =
        (t.sequence level false (c.map f).toList).flatMap read' := fun level c => by
    rw [Option.toList_map]
    exact h.sequence level false c.toList
  -- for every level, since members stand deeper than their collection
  induction g generalizing level with
  | point c => exact hpoint level c
  | lineString cs => exact h.sequence level false cs
  | linearRing cs => exact h.sequence level false cs
  | polygon p => exact h.polygon level false p
  | multiPoint ps =>
    have hpoints : (s.elements level (fun c : Option Coordinate => s.sequence level false c.toList)
        ps).flatMap read =
          (t.elements level (fun c : Option Coordinate => t.sequence level false c.toList)
            (ps.map (Option.map f))).flatMap read' :=
      h.elements level (Option.map f) (hpoint level) ps
    exact hpoints
  | multiLineString ls => exact h.parts level fun cs _ n own => h.sequence n own cs
  | multiPolygon ps => exact h.parts level fun p _ n own => h.polygon n own p
  | collection gs ih =>
    have hmembers : (Style.parts level (fun n _ g => s.geometry n g) gs).flatMap read =
        (Style.parts level (fun n _ g => t.geometry n g)
          (gs.map (Geometry.mapCoordinates f))).flatMap read' :=
      h.parts level fun g hg n _ => h.geometry_of_body (ih g hg n)
    rw [Geometry.mapCoordinates_collection]
    exact hmembers

/-- **A geometry reads as its image does**, at any level. -/
theorem geometry (level : Nat) (g : Geometry) : (s.geometry level g).flatMap read =
    (t.geometry level (g.mapCoordinates f)).flatMap read' :=
  h.geometry_of_body (h.body level g)

end Alike

/-! ### Styles of one layout -/

variable (s : Style)

/-- The style with the same layout that writes all there is. -/
def full : Style := ⟨.xyzm, true, s.layout⟩

theorem slots_full (c : Coordinate) : s.full.slots c =
    [.value c.y, .value c.x, if c.z.isNaN then .missing else .value c.z, .value c.m] := by
  rw [slots, full, if_pos Ordinates.z_and_m_xyzm.1, if_pos Ordinates.z_and_m_xyzm.2]
  rfl

/-- What a style takes of a piece that has all there is. -/
def project : Piece → List Piece
  | .token _ => s.flatToken
  | .coordinate [y, x, z, m] =>
    [.coordinate ([y, x] ++ (if s.ordinates.z then [z] else [])
      ++ if s.ordinates.m then [m] else [])]
  | p => [p]

/-- **A style writes what it takes of the full pieces.** -/
theorem flatMap_project (level : Nat) (g : Geometry) :
    (s.full.geometry level g).flatMap s.project = s.geometry level g := by
  have htoken : s.flatToken.flatMap (fun p => [p]) = s.full.flatToken.flatMap s.project := by
    rw [List.flatMap_singleton', show s.full.flatToken = [.token .xyzm] from rfl,
      List.flatMap_singleton]
    rfl
  have halike : s.Alike s.full id (fun p => [p]) s.project := by
    refine ⟨rfl, fun p hp => ?_, htoken, fun c => ?_⟩
    · cases p with
      | token o => exact hp.elim
      | coordinate places => exact hp.elim
      | _ => rfl
    · rw [id, slots_full]
      rfl
  have h := halike.geometry level g
  rw [g.mapCoordinates_id, List.flatMap_singleton'] at h
  exact h.symm

end Style

end LatLonText
