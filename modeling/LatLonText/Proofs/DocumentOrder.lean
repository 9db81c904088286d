/-
# Visits follow the positions of parts

The parts of a component can be asked for one by one: the exterior of a polygon
and its interiors at positions 0, 1, ..., the members of a collection at
positions 0, 1, ..., and in the end the coordinates of a sequence. Asked for in
this order, at any depth, they give the places of a geometry in document order
(`Component.places_geometry`). A part can be asked for its parts in turn only so
often (`Component.height`), however deep collections are nested.

A visit is a loop over these places that stops when the visitor is done
(`Geometry.visit_eq_fold_take`): it is the fold over the places in front of
some point, the visitor was done at no place before that point, and it is done
there unless no place is left. So no place is skipped, shown twice or out of
order, and none is shown to a visitor that is done.

Key definitions: `Geometry.depth`, `Component.parts`, `Component.places`,
`Visitor.fold`.
Key theorems: `Component.height_lt_of_mem_parts`, `Component.places_geometry`,
`Visitor.run_eq_fold_take`, `Geometry.visit_eq_fold_take`.
-/
import LatLonText.Geometry.Component
import LatLonText.Proofs.Visit

namespace LatLonText

/-! ### Nested collections -/

namespace Geometry

mutual

/-- How deep collections are nested. -/
def depth : Geometry → Nat
  | .collection gs => memberDepth gs + 1
  | _ => 0

/-- How deep collections are nested in the deepest of some geometries. -/
def memberDepth : List Geometry → Nat
  | [] => 0
  | g :: gs => max (depth g) (memberDepth gs)

end

theorem depth_le_memberDepth {g : Geometry} : ∀ {gs : List Geometry}, g ∈ gs →
    g.depth ≤ memberDepth gs
  | h :: gs, hg => by
    rw [memberDepth]
    rcases List.mem_cons.mp hg with rfl | hg
    · exact Nat.le_max_left _ _
    · exact Nat.le_trans (depth_le_memberDepth hg) (Nat.le_max_right _ _)

theorem depth_lt_of_mem {g : Geometry} {gs : List Geometry} (h : g ∈ gs) :
    g.depth < (collection gs).depth := by
  rw [depth.eq_def (collection gs)]
  exact Nat.lt_succ_of_le (depth_le_memberDepth h)

end Geometry

/-! ### Parts by position -/

namespace Component

/-- The rings of a polygon: the exterior, and the interiors at positions 0, 1, ... -/
def rings (c : Component) : List Component :=
  c.exterior.toOption.toList ++ (List.range c.size).filterMap fun i => (c.interior i).toOption

/-- The members of a collection or multi geometry, at positions 0, 1, ... -/
def children (c : Component) : List Component :=
  (List.range c.size).filterMap fun i => (c.child i).toOption

/-- The parts of a component that are components: the rings of a polygon, or the members. -/
def parts (c : Component) : List Component :=
  c.rings ++ c.children

theorem toOption_map_part {α β : Type} (l : List α) (f : α → β) (i : Nat) :
    ((part l i).map f).toOption = l[i]?.map f := by
  unfold part
  cases l[i]? <;> rfl

/-- Asked for at all positions, the parts are those of the list. -/
theorem filterMap_part {α β : Type} (f : α → β) : ∀ l : List α,
    ((List.range l.length).filterMap fun i => ((part l i).map f).toOption) = l.map f
  | [] => rfl
  | a :: l => by
    have ih := filterMap_part f l
    simp only [toOption_map_part] at ih ⊢
    rw [List.length_cons, List.range_succ_eq_map, List.filterMap_cons, List.filterMap_map]
    simp only [List.getElem?_cons_zero, Option.map_some, Function.comp_def,
      List.getElem?_cons_succ, ih, List.map_cons]

theorem filterMap_error {α : Type} (n : Nat) : ((List.range n).filterMap fun _ =>
    (Except.error PartFault.notApplicable : Except _ α).toOption) = [] := by
  simp [Except.toOption]

theorem parts_polygon (p : Polygon) : (polygon p).parts = p.rings.map ring := by
  have h := filterMap_part ring p.interiors
  have hchildren : (polygon p).children = [] := filterMap_error _
  rw [parts, hchildren, List.append_nil]
  show ring p.exterior :: _ = _
  rw [Polygon.rings, List.map_cons, ← h]
  rfl

theorem parts_geometry_polygon (p : Polygon) :
    (geometry (.polygon p)).parts = p.rings.map ring := by
  rw [← parts_polygon]
  rfl

theorem rings_eq_nil {c : Component} (h : c.asPolygon? = none) : c.rings = [] := by
  simp [rings, exterior, interior, h, Except.toOption]

theorem parts_of_child {α : Type} {c : Component} {as : List α} {image : α → Component}
    (hpolygon : c.asPolygon? = none) (hsize : c.size = as.length)
    (hchild : ∀ i, c.child i = (part as i).map image) : c.parts = as.map image := by
  rw [parts, rings_eq_nil hpolygon, List.nil_append, children, hsize]
  simp only [hchild]
  exact filterMap_part image as

theorem parts_multiPoint (ps : List (Option Coordinate)) :
    (geometry (.multiPoint ps)).parts = ps.map point :=
  parts_of_child rfl rfl fun _ => rfl

theorem parts_multiLineString (ls : List (List Coordinate)) :
    (geometry (.multiLineString ls)).parts = ls.map line :=
  parts_of_child rfl rfl fun _ => rfl

theorem parts_multiPolygon (ps : List Polygon) :
    (geometry (.multiPolygon ps)).parts = ps.map polygon :=
  parts_of_child rfl rfl fun _ => rfl

theorem parts_collection (gs : List Geometry) :
    (geometry (.collection gs)).parts = gs.map geometry :=
  parts_of_child rfl rfl fun _ => rfl

/-- A sequence has coordinates and no parts that are components. -/
theorem parts_eq_nil {c : Component} {cs : List Coordinate} (h : c.coordinates? = some cs) :
    c.parts = [] := by
  have hnil : ∀ d : Component, d.asPolygon? = none →
      (∀ i, d.child i = .error .notApplicable) → d.parts = [] := by
    intro d hpolygon hchild
    rw [parts, rings_eq_nil hpolygon, List.nil_append, children]
    simp only [hchild]
    exact filterMap_error _
  cases c with
  | geometry g =>
    cases g with
    | point _ | lineString _ | linearRing _ => exact hnil _ rfl fun _ => rfl
    | _ => nomatch h
  | polygon p => exact nomatch h
  | _ => exact hnil _ rfl fun _ => rfl

/-- How many times a part can be asked for its parts in turn. -/
def height : Component → Nat
  | geometry g => g.depth + 2
  | polygon _ => 1
  | _ => 0

theorem height_lt_of_mem_image {α : Type} {c d : Component} {as : List α} {image : α → Component}
    {n : Nat} (hparts : c.parts = as.map image) (hlt : ∀ a ∈ as, (image a).height < n)
    (h : d ∈ c.parts) : d.height < n := by
  rw [hparts] at h
  obtain ⟨a, ha, rfl⟩ := List.mem_map.mp h
  exact hlt a ha

theorem height_lt_of_mem_parts {c d : Component} (h : d ∈ c.parts) : d.height < c.height := by
  have hsequence : ∀ {c : Component} {cs : List Coordinate}, c.coordinates? = some cs →
      d ∉ c.parts := fun hcs => by
    rw [parts_eq_nil hcs]
    exact List.not_mem_nil
  cases c with
  | geometry g =>
    cases g with
    | polygon p =>
      exact height_lt_of_mem_image (parts_geometry_polygon p) (fun _ _ => Nat.succ_pos 1) h
    | multiPoint ps =>
      exact height_lt_of_mem_image (parts_multiPoint ps) (fun _ _ => Nat.succ_pos 1) h
    | multiLineString ls =>
      exact height_lt_of_mem_image (parts_multiLineString ls) (fun _ _ => Nat.succ_pos 1) h
    | multiPolygon ps =>
      exact height_lt_of_mem_image (parts_multiPolygon ps) (fun _ _ => Nat.lt_succ_self 1) h
    | collection gs =>
      exact height_lt_of_mem_image (parts_collection gs)
        (fun _ hg => Nat.add_lt_add_right (Geometry.depth_lt_of_mem hg) 2) h
    | _ => exact absurd h (hsequence rfl)
  | polygon p => exact height_lt_of_mem_image (parts_polygon p) (fun _ _ => Nat.succ_pos 0) h
  | _ => exact absurd h (hsequence rfl)

/-! ### Places in order -/

theorem size_of_coordinates {c : Component} {cs : List Coordinate} (h : c.coordinates? = some cs) :
    c.size = cs.length := by
  cases c with
  | geometry g =>
    cases g with
    | point _ | lineString _ | linearRing _ =>
      cases h
      rfl
    | _ => nomatch h
  | polygon p => exact nomatch h
  | _ => cases h; rfl

/-- The places of a component: positions 0, 1, ... of a sequence, or the places of its parts, one
part after the other. -/
def places (c : Component) : List (List Coordinate × Nat) :=
  match c.coordinates? with
  | some cs => (List.range c.size).map (cs, ·)
  | none => c.parts.attach.flatMap fun d => d.1.places
termination_by c.height
decreasing_by exact height_lt_of_mem_parts d.2

theorem places_of_coordinates {c : Component} {cs : List Coordinate}
    (h : c.coordinates? = some cs) : c.places = placesOf cs := by
  rw [places, h]
  simp only [size_of_coordinates h, placesOf, List.range_eq_range']

theorem places_of_parts {c : Component} (h : c.coordinates? = none) :
    c.places = c.parts.flatMap places := by
  have hparts : (c.parts.attach.flatMap fun d => d.1.places) =
      c.parts.attach.unattach.flatMap places := List.flatMap_subtype fun _ _ => rfl
  rw [List.unattach_attach] at hparts
  rw [places, h]
  exact hparts

theorem flatMap_places_sequences {α : Type} {part : α → Component} {seq : α → List Coordinate}
    (h : ∀ a, (part a).coordinates? = some (seq a)) (l : List α) :
    (l.map part).flatMap places = (l.map seq).flatMap placesOf := by
  rw [List.flatMap_map, List.flatMap_map]
  exact List.flatMap_congr fun a _ => places_of_coordinates (h a)

theorem places_polygon (p : Polygon) : (polygon p).places = p.rings.flatMap placesOf := by
  have h : (p.rings.map ring).flatMap places = (p.rings.map id).flatMap placesOf :=
    flatMap_places_sequences (fun _ => rfl) p.rings
  rw [places_of_parts rfl, parts_polygon, h, List.map_id]

/-- **Asked for by position, the places of a geometry come in document order.** -/
theorem places_geometry (g : Geometry) : (geometry g).places = g.places := by
  have hsequence : ∀ cs, [cs].flatMap placesOf = placesOf cs := fun cs => List.flatMap_singleton ..
  unfold Geometry.places
  induction g with
  | point c => rw [Geometry.sequences, hsequence, places_of_coordinates rfl]
  | lineString cs => rw [Geometry.sequences, hsequence, places_of_coordinates rfl]
  | linearRing cs => rw [Geometry.sequences, hsequence, places_of_coordinates rfl]
  | polygon p =>
    rw [Geometry.sequences, ← places_polygon, places_of_parts rfl, places_of_parts rfl,
      parts_geometry_polygon, parts_polygon]
  | multiPoint ps =>
    rw [places_of_parts rfl, parts_multiPoint, Geometry.sequences]
    exact flatMap_places_sequences (fun _ => rfl) ps
  | multiLineString ls =>
    have h : (ls.map line).flatMap places = (ls.map id).flatMap placesOf :=
      flatMap_places_sequences (fun _ => rfl) ls
    rw [places_of_parts rfl, parts_multiLineString, h, List.map_id, Geometry.sequences]
  | multiPolygon ps =>
    rw [places_of_parts rfl, parts_multiPolygon, List.flatMap_map, Geometry.sequences,
      List.flatMap_assoc]
    exact List.flatMap_congr fun p _ => places_polygon p
  | collection gs ih =>
    rw [places_of_parts rfl, parts_collection, List.flatMap_map, Geometry.sequences_collection,
      List.flatMap_assoc]
    exact List.flatMap_congr ih

end Component

/-! ### Folds that stop -/

namespace Visitor

variable {σ : Type} (v : Visitor σ)

/-- The state after all of some places, whether or not the visitor is done in between. -/
def fold (places : List (List Coordinate × Nat)) (s : σ) : σ :=
  places.foldl (fun t place => v.step t place.1 place.2) s

/-- **A run is the fold over the places in front of the point where it stops:** the visitor is
done at no earlier point, and it is done there if a place is left. -/
theorem run_eq_fold_take : ∀ (places : List (List Coordinate × Nat)) (s : σ),
    ∃ n ≤ places.length, v.run places s = v.fold (places.take n) s ∧
      (∀ m < n, v.done (v.fold (places.take m) s) = false) ∧
      (n < places.length → v.done (v.fold (places.take n) s) = true)
  | [], s => by
    refine ⟨0, Nat.le_refl 0, rfl, ?_, ?_⟩
    · intro m hm
      exact absurd hm (Nat.not_lt_zero m)
    · intro hlt
      exact absurd hlt (Nat.lt_irrefl 0)
  | (cs, i) :: rest, s => by
    by_cases h : v.done s = true
    · refine ⟨0, Nat.zero_le _, ?_, ?_, ?_⟩
      · rw [v.run_of_done h]
        rfl
      · intro m hm
        exact absurd hm (Nat.not_lt_zero m)
      · intro _
        exact h
    · obtain ⟨n, hn, hrun, hbefore, hafter⟩ := run_eq_fold_take rest (v.step s cs i)
      refine ⟨n + 1, Nat.succ_le_succ hn, ?_, ?_, ?_⟩
      · rw [run, if_neg h, hrun]
        rfl
      · intro m hm
        cases m with
        | zero => exact Bool.eq_false_iff.mpr h
        | succ m => exact hbefore m (Nat.lt_of_succ_lt_succ hm)
      · intro hlt
        exact hafter (Nat.lt_of_succ_lt_succ hlt)

end Visitor

/-- **A visit goes through the places in document order and stops when the visitor is done.** It
leaves the visitor in the state that a fold over the first places leaves: at no earlier place the
visitor was done, and unless all places were visited it is done now. -/
theorem Geometry.visit_eq_fold_take {σ : Type} (v : Visitor σ) (g : Geometry) (s : σ) :
    g.visit v s = v.run (Component.geometry g).places s ∧
      ∃ n ≤ (Component.geometry g).places.length,
        g.visit v s = v.fold ((Component.geometry g).places.take n) s ∧
        (∀ m < n, v.done (v.fold ((Component.geometry g).places.take m) s) = false) ∧
        (n < (Component.geometry g).places.length → v.done (g.visit v s) = true) := by
  have hrun : g.visit v s = v.run (Component.geometry g).places s := by
    rw [g.visit_eq_run, Component.places_geometry]
  refine ⟨hrun, ?_⟩
  obtain ⟨n, hn, hfold, hbefore, hafter⟩ := v.run_eq_fold_take (Component.geometry g).places s
  rw [← hrun] at hfold
  rw [← hfold] at hafter
  exact ⟨n, hn, hfold, hbefore, hafter⟩

end LatLonText
