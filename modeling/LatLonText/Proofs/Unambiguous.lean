/-
# The text determines the geometry

With floating precision, geometries of one text are the same as far as they are
written (`Config.normalForm`): up to the holes of empty polygons, the ordinates
that the geometry's text leaves out, and the payload of a NaN. The ordinates
are told by the token; where a dialect writes none but has M imply Z, they are
told by how many there are (`Style.Matched`). The induction over a geometry
carries what a text tells against the texts of another style
(`Style.Matched.body_tells`), since without a token the styles of two
geometries may differ until a coordinate is met.

Key definitions: `Coordinate.restrict`, `Config.normalForm`, `Style.Matched`.
Key theorems: `Style.Matched.body_tells`, `Config.normalForm_eq_of_write_eq`.
-/
import LatLonText.Proofs.Delimited
import LatLonText.Proofs.Presence

namespace LatLonText

/-! ### Normal forms -/

/-- The ordinate, with one NaN for all. -/
def Ordinate.canonical (v : Ordinate) : Ordinate :=
  if v.isNaN then .absent else v

/-- The coordinate with only those of Z and M that are in a set, and one NaN for all. -/
def Coordinate.restrict (o : Ordinates) (c : Coordinate) : Coordinate where
  x := c.x.canonical
  y := c.y.canonical
  z := if o.z then c.z.canonical else .absent
  m := if o.m then c.m.canonical else .absent

/-- The polygon as far as it is written with a set of ordinates. -/
def Polygon.normal (o : Ordinates) (p : Polygon) : Polygon :=
  (p.mapCoordinates (Coordinate.restrict o)).written

/-- The geometry as far as it is written with a set of ordinates. -/
def Geometry.normal (o : Ordinates) (g : Geometry) : Geometry :=
  (g.mapCoordinates (Coordinate.restrict o)).written

@[simp]
theorem Geometry.normal_collection (o : Ordinates) (gs : List Geometry) :
    (collection gs).normal o = collection (gs.map (normal o)) := by
  simp only [normal, mapCoordinates_collection, written_collection, List.map_map]
  rfl

/-- A geometry as far as it is written: without the holes of empty polygons, without the ordinates
that are not effective, and with one NaN for all. -/
def Config.normalForm (c : Config) (g : Geometry) : Geometry :=
  g.normal (c.effectiveOrdinates g)

/-! ### Coordinates -/

/-- A spelling that tells ordinates apart: with floating precision, and a word as the marker that is
not the text of a number. -/
structure Spelling.Faithful (s : Spelling) : Prop where
  floating : s.precision = .floating
  isWord : IsWord s.missingMarker.toList
  ne_text : ∀ v : Ordinate, v.isNaN = false → Precision.floating.text v ≠ s.missingMarker.toList

/-- Two styles in which coordinates with equally many places have the same ordinates, and the
token is the same. -/
structure Style.Matched (s t : Style) : Prop where
  token : s.flatToken = t.flatToken
  ordinates : ∀ c d : Coordinate, (s.slots c).length = (t.slots d).length → s.ordinates = t.ordinates

/-- The place of a Z. -/
def Slot.ofZ (z : Ordinate) : Slot :=
  if z.isNaN then .missing else .value z

theorem Style.slots_eq (s : Style) (c : Coordinate) :
    s.slots c = [.value c.y, .value c.x]
      ++ (if s.ordinates.z then [.ofZ c.z] else [])
      ++ (if s.ordinates.m then [.value c.m] else []) := rfl

namespace Spelling.Faithful

variable {s : Spelling} (h : s.Faithful)

include h

theorem isWord_slot (place : Slot) : IsWord (s.slot place) := by
  cases place with
  | value v => exact s.precision.isWord_text v
  | missing => exact h.isWord

/-- The text of an ordinate tells it, NaNs apart. -/
theorem canonical_eq_of_value {v w : Ordinate} (heq : s.slot (.value v) = s.slot (.value w)) :
    v.canonical = w.canonical := by
  simp only [slot, h.floating] at heq
  unfold Ordinate.canonical
  cases hv : v.isNaN <;> cases hw : w.isNaN
  · simpa using Precision.text_floating_injective hv hw heq
  · exact absurd (heq.trans (Precision.text_nan hw _)) (Precision.text_floating_ne_nan hv)
  · exact absurd (heq.symm.trans (Precision.text_nan hv _)) (Precision.text_floating_ne_nan hw)
  · rfl

/-- The place of a Z tells it. -/
theorem canonical_eq_of_ofZ {v w : Ordinate} (heq : s.slot (.ofZ v) = s.slot (.ofZ w)) :
    v.canonical = w.canonical := by
  cases hv : v.isNaN <;> cases hw : w.isNaN
  · simp only [Slot.ofZ, hv, hw, Bool.false_eq_true, if_false] at heq
    exact h.canonical_eq_of_value heq
  · simp only [Slot.ofZ, hv, hw, Bool.false_eq_true, if_false, if_true, slot, h.floating] at heq
    exact absurd heq (h.ne_text v hv)
  · simp only [Slot.ofZ, hv, hw, Bool.false_eq_true, if_false, if_true, slot, h.floating] at heq
    exact absurd heq.symm (h.ne_text w hw)
  · simp [Ordinate.canonical, hv, hw]

/-- The text of a coordinate tells the texts of its places. -/
theorem map_slot_eq {places places' : List Slot} (hne : places ≠ []) (hne' : places' ≠ [])
    (heq : s.slots places = s.slots places') : places.map s.slot = places'.map s.slot := by
  have hsplit : ∀ ps : List Slot, ps ≠ [] → (s.slots ps).splitOn ' ' = ps.map s.slot :=
    fun ps hps => by
      refine List.splitOn_intercalate ' ' ?_ (by simpa using hps)
      intro cs hcs hmem
      obtain ⟨place, _, rfl⟩ := List.mem_map.mp hcs
      exact h.isWord_slot place ' ' hmem (by decide)
  rw [← hsplit places hne, ← hsplit places' hne', heq]

/-- The text of a coordinate tells its ordinates as far as they are written. -/
theorem restrict_eq {t u : Style} (hmatched : t.Matched u) {c d : Coordinate}
    (heq : s.slots (t.slots c) = s.slots (u.slots d)) :
    c.restrict t.ordinates = d.restrict u.ordinates := by
  have hslots := h.map_slot_eq (by simp [Style.slots]) (by simp [Style.slots]) heq
  have hlength : (t.slots c).length = (u.slots d).length := by
    simpa using congrArg List.length hslots
  rw [Style.slots_eq, Style.slots_eq, ← hmatched.ordinates c d hlength] at hslots
  rw [← hmatched.ordinates c d hlength]
  simp only [List.map_append, List.map_cons, List.cons_append, List.nil_append,
    List.cons.injEq] at hslots
  obtain ⟨hy, hx, hslots⟩ := hslots
  have hxy := And.intro (h.canonical_eq_of_value hx) (h.canonical_eq_of_value hy)
  cases hz : t.ordinates.z <;> cases hm : t.ordinates.m <;>
    simp only [hz, hm, Bool.false_eq_true, if_true, if_false, List.map_cons, List.map_nil,
      List.cons_append, List.nil_append, List.append_nil, List.cons.injEq, and_true] at hslots
  · simp [Coordinate.restrict, hz, hm, hxy]
  · simp [Coordinate.restrict, hz, hm, hxy, h.canonical_eq_of_value hslots]
  · simp [Coordinate.restrict, hz, hm, hxy, h.canonical_eq_of_ofZ hslots]
  · simp [Coordinate.restrict, hz, hm, hxy, h.canonical_eq_of_ofZ hslots.1,
      h.canonical_eq_of_value hslots.2]

end Spelling.Faithful

/-! ### The parts of a geometry -/

namespace Style.Matched

variable {s t : Style} (h : s.Matched t) {sp : Spelling} (hsp : sp.Faithful)

include h hsp

theorem coordinate_tells (c : Coordinate) :
    Tells (fun c => sp.slots (s.slots c)) (fun c => sp.slots (t.slots c))
      (Coordinate.restrict s.ordinates) (Coordinate.restrict t.ordinates) c := by
  intro d r r' hr hr' heq
  have hword : ∀ places : List Slot, ∀ x ∈ sp.slots places, ¬ (x = ',' ∨ x = ')') := by
    intro places x hx hend
    rcases sp.mem_slots hx with rfl | ⟨place, _, hx⟩
    · exact absurd hend (by decide)
    · refine hsp.isWord_slot place x hx ?_
      rcases hend with rfl | rfl <;> decide
  obtain ⟨hslots, hrest⟩ := eq_of_append_eq (hword _) (hword _) hr hr' heq
  exact ⟨hsp.restrict_eq h hslots, hrest⟩

theorem sequence_tells (cs : List Coordinate) :
    Tells (fun cs => sp.pieces (s.flatSequence cs)) (fun cs => sp.pieces (t.flatSequence cs))
      (List.map (Coordinate.restrict s.ordinates)) (List.map (Coordinate.restrict t.ordinates))
      cs := by
  simp only [sp.pieces_flatSequence]
  exact Tells.group fun c _ => h.coordinate_tells hsp c

theorem point_tells (c : Option Coordinate) :
    Tells (fun c : Option Coordinate => sp.pieces (s.flatSequence c.toList))
      (fun c => sp.pieces (t.flatSequence c.toList))
      (Option.map (Coordinate.restrict s.ordinates))
      (Option.map (Coordinate.restrict t.ordinates)) c := by
  intro d r r' hr hr' heq
  obtain ⟨hpoint, hrest⟩ := h.sequence_tells hsp c.toList d.toList r r' hr hr' heq
  refine ⟨?_, hrest⟩
  cases c <;> cases d <;> simp_all

theorem polygon_tells (p : Polygon) :
    Tells (fun p => sp.pieces (s.flatPolygon p)) (fun p => sp.pieces (t.flatPolygon p))
      (Polygon.normal s.ordinates) (Polygon.normal t.ordinates) p := by
  intro q r r' hr hr' heq
  simp only [sp.pieces_flatPolygon] at heq
  have htells := Tells.group fun ring (_ : ring ∈ p.writtenRings) => h.sequence_tells hsp ring
  obtain ⟨hrings, hrest⟩ := htells q.writtenRings r r' hr hr' heq
  refine ⟨?_, hrest⟩
  simp only [Polygon.normal, Polygon.written_eq_ofRings, Polygon.writtenRings_mapCoordinates,
    hrings]

/-- The text of a body tells what it is the body of, if the kind is known. -/
theorem body_tells {a b : Geometry} {r r' : List Char} (hkind : a.kind = b.kind) (hr : Ends r)
    (hr' : Ends r') (heq : sp.pieces (s.flatBody a) ++ r = sp.pieces (t.flatBody b) ++ r') :
    a.normal s.ordinates = b.normal t.ordinates ∧ r = r' := by
  -- on the first geometry; the second is any, since members are compared with members
  induction a generalizing b r r' with
  | point c =>
    cases b with
    | point d =>
      obtain ⟨hcd, hrest⟩ := h.point_tells hsp c d r r' hr hr' heq
      exact ⟨congrArg Geometry.point hcd, hrest⟩
    | _ => cases hkind
  | lineString cs =>
    cases b with
    | lineString ds =>
      obtain ⟨hcd, hrest⟩ := h.sequence_tells hsp cs ds r r' hr hr' heq
      exact ⟨congrArg Geometry.lineString hcd, hrest⟩
    | _ => cases hkind
  | linearRing cs =>
    cases b with
    | linearRing ds =>
      obtain ⟨hcd, hrest⟩ := h.sequence_tells hsp cs ds r r' hr hr' heq
      exact ⟨congrArg Geometry.linearRing hcd, hrest⟩
    | _ => cases hkind
  | polygon p =>
    cases b with
    | polygon q =>
      obtain ⟨hpq, hrest⟩ := h.polygon_tells hsp p q r r' hr hr' heq
      exact ⟨congrArg Geometry.polygon hpq, hrest⟩
    | _ => cases hkind
  | multiPoint ps =>
    cases b with
    | multiPoint qs =>
      have htells := sp.group_tells fun p (_ : p ∈ ps) => h.point_tells hsp p
      obtain ⟨hpq, hrest⟩ := htells qs r r' hr hr' heq
      exact ⟨congrArg Geometry.multiPoint hpq, hrest⟩
    | _ => cases hkind
  | multiLineString ls =>
    cases b with
    | multiLineString ms =>
      have htells := sp.group_tells fun l (_ : l ∈ ls) => h.sequence_tells hsp l
      obtain ⟨hlm, hrest⟩ := htells ms r r' hr hr' heq
      exact ⟨congrArg Geometry.multiLineString hlm, hrest⟩
    | _ => cases hkind
  | multiPolygon ps =>
    cases b with
    | multiPolygon qs =>
      have htells := sp.group_tells fun p (_ : p ∈ ps) => h.polygon_tells hsp p
      obtain ⟨hpq, hrest⟩ := htells qs r r' hr hr' heq
      refine ⟨?_, hrest⟩
      simp only [Geometry.normal, Geometry.mapCoordinates, Geometry.written, List.map_map]
      exact congrArg Geometry.multiPolygon hpq
    | _ => cases hkind
  | collection gs ih =>
    cases b with
    | collection hs =>
      have hmember : ∀ g ∈ gs, Tells (fun g => sp.pieces (s.flat g)) (fun g => sp.pieces (t.flat g))
          (Geometry.normal s.ordinates) (Geometry.normal t.ordinates) g := by
        intro g hg b r r' hr hr' heq
        obtain ⟨hkind, hbody⟩ := sp.kind_eq_of_flat heq
        rw [h.token] at hbody
        exact ih g hg hkind hr hr' (List.append_cancel_left hbody)
      obtain ⟨hgh, hrest⟩ := sp.group_tells hmember hs r r' hr hr' heq
      refine ⟨?_, hrest⟩
      rw [Geometry.normal_collection, Geometry.normal_collection]
      exact congrArg Geometry.collection hgh
    | _ => cases hkind

/-- **The text of a geometry tells it** as far as it is written. -/
theorem normal_eq {a b : Geometry} (heq : sp.pieces (s.flat a) = sp.pieces (t.flat b)) :
    a.normal s.ordinates = b.normal t.ordinates := by
  rw [← List.append_nil (sp.pieces (s.flat a)), ← List.append_nil (sp.pieces (t.flat b))] at heq
  obtain ⟨hkind, hbody⟩ := sp.kind_eq_of_flat heq
  rw [h.token] at hbody
  exact (h.body_tells hsp hkind ends_nil ends_nil (List.append_cancel_left hbody)).1

end Style.Matched

/-! ### Geometries with the same text -/

theorem Style.length_slots (s : Style) (c : Coordinate) :
    (s.slots c).length = 2 + s.ordinates.z.toNat + s.ordinates.m.toNat := by
  rw [slots_eq]
  cases s.ordinates.z <;> cases s.ordinates.m <;> rfl

namespace Config

variable {c : Config}

/-- Where M implies Z, an M that is written has a Z beside it. -/
theorem effectiveOrdinates_z (h : c.dialect.mImpliesZ = true) {g : Geometry}
    (hm : (c.effectiveOrdinates g).m = true) : (c.effectiveOrdinates g).z = true := by
  rw [effectiveOrdinates, Geometry.presentOrdinates_eq] at hm ⊢
  rw [Presence.m_presentIn] at hm
  rw [Presence.z_presentIn, h, Bool.true_and, hm, Bool.or_true]

theorem matched_of_token (htoken : c.dialect.writesToken = true) {a b : Geometry}
    (heq : c.spelling.pieces (c.flatPieces a) = c.spelling.pieces (c.flatPieces b)) :
    (c.style a).Matched (c.style b) := by
  have hpieces : ∀ g : Geometry, c.spelling.pieces (c.style g).flatToken =
      (c.effectiveOrdinates g).token.toList := fun g => by
    rw [c.spelling.pieces_flatToken]
    exact if_pos htoken
  rw [flatPieces, flatPieces, ← List.append_nil (c.spelling.pieces ((c.style a).flat a)),
    ← List.append_nil (c.spelling.pieces ((c.style b).flat b))] at heq
  have hbody := (c.spelling.kind_eq_of_flat heq).2
  rw [hpieces, hpieces] at hbody
  obtain ⟨hz, hm⟩ := c.spelling.ordinates_eq_of_token hbody
  have hstyle : c.style a = c.style b := by
    rw [style, style, effectiveOrdinates, effectiveOrdinates, Geometry.presentOrdinates_ext hz hm]
  rw [hstyle]
  exact ⟨rfl, fun _ _ _ => rfl⟩

theorem matched_of_mImpliesZ (htoken : c.dialect.writesToken = false)
    (hmz : c.dialect.mImpliesZ = true) (a b : Geometry) :
    (c.style a).Matched (c.style b) where
  token := by simp [Style.flatToken, style, htoken]
  ordinates x y hlength := by
    have ha := effectiveOrdinates_z hmz (g := a)
    have hb := effectiveOrdinates_z hmz (g := b)
    rw [Style.length_slots, Style.length_slots] at hlength
    simp only [style] at hlength ⊢
    suffices hflags : (c.effectiveOrdinates a).z = (c.effectiveOrdinates b).z ∧
        (c.effectiveOrdinates a).m = (c.effectiveOrdinates b).m from
      Geometry.presentOrdinates_ext hflags.1 hflags.2
    revert hlength ha hb
    generalize (c.effectiveOrdinates a).z = z
    generalize (c.effectiveOrdinates a).m = m
    generalize (c.effectiveOrdinates b).z = z'
    generalize (c.effectiveOrdinates b).m = m'
    revert z m z' m'
    decide

/-- **The text determines the geometry** as far as it is written, if ordinates are written with
floating precision, if they are told by a token or by their count, and if the marker is a word
that no number is written as. -/
theorem normalForm_eq_of_write_eq (c : Config) (hprecision : c.precision = .floating)
    (hdialect : c.dialect.writesToken = true ∨ c.dialect.mImpliesZ = true)
    (hword : IsWord c.dialect.missingMarker.toList)
    (hmarker : ∀ v : Ordinate, v.isNaN = false →
      Precision.floating.text v ≠ c.dialect.missingMarker.toList)
    (a b : Geometry) (heq : c.write a = c.write b) : c.normalForm a = c.normalForm b := by
  have hfaithful : c.spelling.Faithful := ⟨hprecision, hword, hmarker⟩
  have htext : c.spelling.pieces (c.flatPieces a) = c.spelling.pieces (c.flatPieces b) := by
    rw [← unbreak_text hword.newline_not_mem, ← unbreak_text hword.newline_not_mem,
      String.ofList_injective heq]
  by_cases htoken : c.dialect.writesToken = true
  · exact (matched_of_token htoken htext).normal_eq hfaithful htext
  · have hmz : c.dialect.mImpliesZ = true := hdialect.resolve_left htoken
    exact (matched_of_mImpliesZ (by simpa using htoken) hmz a b).normal_eq hfaithful htext

/-- Without a token, and up to a hole that is not written and the payload of a NaN. -/
theorem normalForm_eq_of_null :
    let c : Config := .sqlServer
    let zero : Ordinate := ⟨0⟩
    let hole : List Coordinate := [.xy zero zero]
    let a : Geometry := .collection
      [.polygon ⟨[], [hole]⟩, .point (some ⟨zero, zero, ⟨0x7ff8000000000001⟩, zero⟩)]
    let b : Geometry := .collection
      [.polygon ⟨[], []⟩, .point (some ⟨zero, zero, ⟨0xfff0000000000001⟩, zero⟩)]
    (c.write a).toList = "GEOMETRYCOLLECTION (POLYGON EMPTY, POINT (0 0 NULL 0))".toList ∧
    c.write a = c.write b ∧ c.normalForm a = c.normalForm b := by
  intro c zero hole a b
  have hmarker : ∀ v : Ordinate, v.isNaN = false →
      Precision.floating.text v ≠ c.dialect.missingMarker.toList := by
    intro v hv
    rw [show c.dialect.missingMarker.toList = 'N' :: "ULL".toList by decide]
    exact Precision.text_floating_ne_cons hv (by decide)
  have hwrite : c.write a = c.write b := by decide +kernel
  exact ⟨by decide +kernel, hwrite,
    normalForm_eq_of_write_eq c rfl (.inr rfl) (by decide) hmarker a b hwrite⟩

end Config

end LatLonText
