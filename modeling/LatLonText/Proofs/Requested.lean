/-
# Ordinates that are not asked for

A text hangs on nothing of a coordinate but X, Y and the ordinates asked for,
and on no NaN but for its being one. A geometry and its restriction to the
ordinates asked for are written alike (`Config.write_restrict`): in both the
same ordinates are found, since only those asked for are looked for, and no
place of a coordinate takes another, since a Z that M brings along was asked for
beside it (`Config.effectiveOrdinates_z_requested`). So geometries with one
restriction have one text, and neither the scan for ordinates nor a place of a
coordinate tells them apart.

Key theorems: `Config.write_restrict`, `Config.write_eq_of_restrict_eq`.
-/
import LatLonText.Proofs.Alike
import LatLonText.Proofs.Config
import LatLonText.Proofs.Unambiguous

namespace LatLonText

/-! ### Restricted coordinates -/

theorem Ordinate.isNaN_canonical (v : Ordinate) : v.canonical.isNaN = v.isNaN := by
  unfold canonical
  split
  · rename_i hv
    rw [hv]
    decide
  · rfl

/-- An ordinate that is kept is there as before, and one that is not kept is absent. -/
theorem Ordinate.isNaN_kept (keep : Bool) (v : Ordinate) :
    (!(if keep = true then v.canonical else absent).isNaN) = (keep && !v.isNaN) := by
  cases keep with
  | true => rw [if_pos rfl, v.isNaN_canonical, Bool.true_and]
  | false =>
    rw [if_neg (by decide), Bool.false_and]
    decide

theorem Coordinate.hasZ_restrict (o : Ordinates) (c : Coordinate) :
    (c.restrict o).hasZ = (o.z && c.hasZ) :=
  Ordinate.isNaN_kept o.z c.z

theorem Coordinate.hasM_restrict (o : Ordinates) (c : Coordinate) :
    (c.restrict o).hasM = (o.m && c.hasM) :=
  Ordinate.isNaN_kept o.m c.m

/-- All NaNs are written alike. -/
theorem Precision.text_canonical (p : Precision) (v : Ordinate) :
    p.text v.canonical = p.text v := by
  unfold Ordinate.canonical
  split
  · rename_i hv
    rw [text_nan hv, text_nan (by decide)]
  · rfl

/-- What is looked for is found in restricted coordinates as in the coordinates themselves. -/
theorem Presence.presentIn_restrict (requested : Ordinates) (mImpliesZ : Bool)
    (cs : List Coordinate) :
    presentIn requested mImpliesZ (cs.map (Coordinate.restrict requested)) =
      presentIn requested mImpliesZ cs := by
  have hz : (requested.z && (cs.map (Coordinate.restrict requested)).any Coordinate.hasZ) =
      (requested.z && cs.any Coordinate.hasZ) := by
    cases hr : requested.z <;>
      simp [List.any_map, Function.comp_def, Coordinate.hasZ_restrict, hr]
  have hm : (requested.m && (cs.map (Coordinate.restrict requested)).any Coordinate.hasM) =
      (requested.m && cs.any Coordinate.hasM) := by
    cases hr : requested.m <;>
      simp [List.any_map, Function.comp_def, Coordinate.hasM_restrict, hr]
  simp only [presentIn, Bool.and_assoc, hz, hm]

/-- A coordinate is written as its restriction, if the style takes only what is left of it. -/
theorem Spelling.slots_restrict (s : Spelling) {t : Style} {o : Ordinates}
    (hz : t.ordinates.z = true → o.z = true) (hm : t.ordinates.m = true → o.m = true)
    (c : Coordinate) : s.slots (t.slots (c.restrict o)) = s.slots (t.slots c) := by
  have hvalue : ∀ v : Ordinate, s.slot (.value v.canonical) = s.slot (.value v) :=
    s.precision.text_canonical
  have hofZ : ∀ v : Ordinate, s.slot (.ofZ v.canonical) = s.slot (.ofZ v) := fun v => by
    unfold Slot.ofZ
    rw [v.isNaN_canonical]
    split
    · rfl
    · exact hvalue v
  have hmap : (t.slots (c.restrict o)).map s.slot = (t.slots c).map s.slot := by
    rw [Style.slots_eq, Style.slots_eq]
    cases htz : t.ordinates.z <;> cases htm : t.ordinates.m <;>
      simp [Coordinate.restrict, htz, htm, hz, hm, hvalue, hofZ]
  rw [slots, slots, hmap]

namespace Config

variable {c : Config}

/-! ### The ordinates that are written -/

theorem effectiveOrdinates_m_requested {g : Geometry} (h : (c.effectiveOrdinates g).m = true) :
    c.ordinates.m = true := by
  rw [effectiveOrdinates, Geometry.presentOrdinates_eq, Presence.m_presentIn] at h
  exact (Bool.and_eq_true_iff.mp h).1

/-- A Z that is written was asked for, also where M brings it along. -/
theorem effectiveOrdinates_z_requested (hc : c.Obtainable) {g : Geometry}
    (h : (c.effectiveOrdinates g).z = true) : c.ordinates.z = true := by
  rw [effectiveOrdinates, Geometry.presentOrdinates_eq, Presence.z_presentIn] at h
  simp only [Bool.or_eq_true, Bool.and_eq_true] at h
  rcases h with ⟨hz, _⟩ | ⟨⟨_, hm⟩, _⟩
  · exact hz
  · exact hc.z_of_m hm

theorem effectiveOrdinates_restrict (c : Config) (g : Geometry) :
    c.effectiveOrdinates (g.mapCoordinates (Coordinate.restrict c.ordinates)) =
      c.effectiveOrdinates g := by
  rw [effectiveOrdinates, effectiveOrdinates, Geometry.presentOrdinates_eq,
    Geometry.presentOrdinates_eq, Geometry.coordinates_mapCoordinates, Presence.presentIn_restrict]

/-! ### Texts -/

/-- **A geometry is written as its restriction** to the ordinates asked for. -/
theorem write_restrict (hc : c.Obtainable) (g : Geometry) :
    c.write (g.mapCoordinates (Coordinate.restrict c.ordinates)) = c.write g := by
  have halike : (c.style g).Alike (c.style g) (Coordinate.restrict c.ordinates) c.spelling.piece
      c.spelling.piece := by
    refine ⟨rfl, fun _ _ => rfl, rfl, fun d => ?_⟩
    rw [c.spelling.piece_eq_start (by nofun), c.spelling.piece_eq_start (by nofun)]
    exact (c.spelling.slots_restrict (effectiveOrdinates_z_requested hc)
      effectiveOrdinates_m_requested d).symm
  have hpieces : c.pieces (g.mapCoordinates (Coordinate.restrict c.ordinates)) =
      (c.style g).geometry 0 (g.mapCoordinates (Coordinate.restrict c.ordinates)) := by
    rw [pieces, c.effectiveOrdinates_restrict g]
    rfl
  rw [write, write, text, text, hpieces]
  exact congrArg String.ofList (halike.geometry 0 g).symm

/-- **Only what is asked for is written.** Geometries of one structure whose coordinates agree on X,
Y and the ordinates asked for, NaNs being all the same, have one text: with two dimensions it does
not depend on Z or M, with three not on M, and never on the sign or payload of a NaN. -/
theorem write_eq_of_restrict_eq (hc : c.Obtainable) (a b : Geometry)
    (h : a.mapCoordinates (Coordinate.restrict c.ordinates) =
      b.mapCoordinates (Coordinate.restrict c.ordinates)) : c.write a = c.write b := by
  rw [← write_restrict hc a, h, write_restrict hc b]

/-- With three dimensions, an M and the payload of a NaN make no difference, though M implies Z. -/
theorem write_eq_of_unrequested_m :
    let c : Config :=
      { Config.default with
        ordinates := .xyz, dialect := { Dialect.standard with mImpliesZ := true } }
    let zero : Ordinate := ⟨0⟩
    let a : Geometry := .lineString [⟨zero, zero, ⟨0x7ff8000000000001⟩, ⟨5⟩⟩, .xyz zero zero zero]
    let b : Geometry := .lineString [.xy zero zero, ⟨zero, zero, zero, ⟨0xfff0000000000001⟩⟩]
    (Settings.ofConfig c).build = .ok c ∧
    a.mapCoordinates (Coordinate.restrict c.ordinates) =
      b.mapCoordinates (Coordinate.restrict c.ordinates) ∧
    (c.write a).toList = "LINESTRING Z (0 0 NaN, 0 0 0)".toList ∧ c.write a = c.write b := by
  intro c zero a b
  have hbuild : (Settings.ofConfig c).build = .ok c := by
    dsimp only [c]
    rfl
  have hrestrict : a.mapCoordinates (Coordinate.restrict c.ordinates) =
      b.mapCoordinates (Coordinate.restrict c.ordinates) := by
    dsimp only [a, b, c, zero]
    rfl
  exact ⟨hbuild, hrestrict, by decide +kernel,
    write_eq_of_restrict_eq (.built hbuild) a b hrestrict⟩

end Config

end LatLonText
