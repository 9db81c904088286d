/-
# Which ordinates are found

What a visit finds is what some coordinate of the geometry has, beside the X and Y
that it begins with (`presentOrdinates_iff`). The invariant is that the ordinates
found so far are those of the coordinates seen so far (`note_presentIn`). A visit
that stops early loses nothing: once all that was requested is found, no further
coordinate adds to it (`presentIn_of_eq_requested`), not even where finding M
adds Z.

Key definitions: `Ordinates.of`, `Presence.presentIn`.
Key theorems: `Geometry.presentOrdinates_eq`, `Geometry.presentOrdinates_iff`.
-/
import LatLonText.Geometry.Presence
import LatLonText.Proofs.Visit

namespace LatLonText

namespace Coordinate

/-- Whether the coordinate has a Z. -/
def hasZ (c : Coordinate) : Bool := !c.z.isNaN

/-- Whether the coordinate has an M. -/
def hasM (c : Coordinate) : Bool := !c.m.isNaN

end Coordinate

namespace Ordinates

/-- X and Y, with Z and M as told. -/
def of (z m : Bool) : Ordinates :=
  let o := if z then xy.withZ else xy
  if m then o.withM else o

@[simp]
theorem z_of (z m : Bool) : (of z m).z = z := by
  cases z <;> cases m <;> simp [of, z_and_m_xy]

@[simp]
theorem m_of (z m : Bool) : (of z m).m = m := by
  cases z <;> cases m <;> simp [of, z_and_m_xy]

/-- What X and Y have is kept when Z and M are added. -/
theorem has_of {bit : UInt8} (h : xy.has bit = true) (z m : Bool) : (of z m).has bit = true := by
  cases z <;> cases m <;> simp [of, has_withZ, has_withM, h]

end Ordinates

namespace Presence

variable (requested : Ordinates) (mImpliesZ : Bool)

/-- The ordinates that are found in coordinates: of those requested the ones that some coordinate
has, and Z also with an M where M implies Z. -/
def presentIn (cs : List Coordinate) : Ordinates :=
  .of
    (requested.z && cs.any Coordinate.hasZ || mImpliesZ && requested.m && cs.any Coordinate.hasM)
    (requested.m && cs.any Coordinate.hasM)

@[simp]
theorem z_presentIn (cs : List Coordinate) :
    (presentIn requested mImpliesZ cs).z =
      (requested.z && cs.any Coordinate.hasZ ||
        mImpliesZ && requested.m && cs.any Coordinate.hasM) :=
  Ordinates.z_of _ _

@[simp]
theorem m_presentIn (cs : List Coordinate) :
    (presentIn requested mImpliesZ cs).m = (requested.m && cs.any Coordinate.hasM) :=
  Ordinates.m_of _ _

theorem presentIn_nil : presentIn requested mImpliesZ [] = .xy := by
  simp [presentIn, Ordinates.of]

/-- What a coordinate adds: its Z and M as far as they are requested, and Z with a first M where M
implies Z. -/
theorem note_of (fz fm : Bool) (c : Coordinate) :
    note requested mImpliesZ (.of fz fm) c =
      .of (fz || requested.z && c.hasZ || mImpliesZ && (requested.m && !fm && c.hasM))
        (fm || requested.m && c.hasM) := by
  simp only [note, Coordinate.hasZ, Coordinate.hasM]
  generalize c.z.isNaN = nz
  generalize c.m.isNaN = nm
  generalize requested.z = rz
  generalize requested.m = rm
  revert rz rm fz fm nz nm mImpliesZ
  decide

/-- One more coordinate is found as the coordinates before it were. -/
theorem note_presentIn (seen : List Coordinate) (c : Coordinate) :
    note requested mImpliesZ (presentIn requested mImpliesZ seen) c =
      presentIn requested mImpliesZ (seen ++ [c]) := by
  rw [presentIn, note_of, presentIn]
  simp only [List.any_append, List.any_cons, List.any_nil, Bool.or_false]
  generalize seen.any Coordinate.hasZ = sz
  generalize seen.any Coordinate.hasM = sm
  generalize c.hasZ = cz
  generalize c.hasM = cm
  generalize requested.z = rz
  generalize requested.m = rm
  revert mImpliesZ sz sm cz cm rz rm
  decide

/-- When all that was requested is found, further coordinates add nothing. Where M implies Z this
needs that an M found has brought its Z: so Z was requested too. -/
theorem presentIn_of_eq_requested {seen : List Coordinate}
    (h : presentIn requested mImpliesZ seen = requested) (more : List Coordinate) :
    presentIn requested mImpliesZ (seen ++ more) = requested := by
  have hz := congrArg Ordinates.z h
  have hm := congrArg Ordinates.m h
  have hsame : presentIn requested mImpliesZ (seen ++ more) =
      presentIn requested mImpliesZ seen := by
    rw [z_presentIn] at hz
    rw [m_presentIn] at hm
    rw [presentIn, presentIn]
    simp only [List.any_append]
    clear h
    revert hz hm
    generalize seen.any Coordinate.hasZ = sz
    generalize seen.any Coordinate.hasM = sm
    generalize more.any Coordinate.hasZ = tz
    generalize more.any Coordinate.hasM = tm
    generalize requested.z = rz
    generalize requested.m = rm
    revert mImpliesZ sz sm tz tm rz rm
    decide
  exact hsame.trans h

/-- A scan finds what the coordinates have, however early it stops. -/
theorem scanUntil_note : ∀ (cs seen : List Coordinate),
    scanUntil (visitor requested mImpliesZ).done (note requested mImpliesZ) cs
        (presentIn requested mImpliesZ seen) =
      presentIn requested mImpliesZ (seen ++ cs)
  | [], seen => by rw [List.append_nil]; rfl
  | c :: cs, seen => by
    unfold scanUntil
    split
    · rename_i hdone
      have h : presentIn requested mImpliesZ seen = requested := by
        simpa [visitor] using hdone
      rw [presentIn_of_eq_requested _ _ h, h]
    · rw [note_presentIn, scanUntil_note cs (seen ++ [c]), List.append_assoc]
      rfl

end Presence

namespace Geometry

/-- The ordinates of a geometry are those of its coordinates. -/
theorem presentOrdinates_eq (requested : Ordinates) (mImpliesZ : Bool) (g : Geometry) :
    g.presentOrdinates requested mImpliesZ =
      Presence.presentIn requested mImpliesZ g.coordinates := by
  have hstep : ∀ s cs i c, cs[i]? = some c → (Presence.visitor requested mImpliesZ).step s cs i =
      Presence.note requested mImpliesZ s c := fun s cs i c h => by
    simp [Presence.visitor, h]
  rw [presentOrdinates, visit_eq_scan hstep, ← Presence.presentIn_nil requested mImpliesZ,
    Presence.scanUntil_note]
  rfl

/-- What is found differs in nothing but Z and M. -/
theorem presentOrdinates_ext {requested : Ordinates} {mImpliesZ : Bool} {g h : Geometry}
    (hz : (g.presentOrdinates requested mImpliesZ).z = (h.presentOrdinates requested mImpliesZ).z)
    (hm : (g.presentOrdinates requested mImpliesZ).m = (h.presentOrdinates requested mImpliesZ).m) :
    g.presentOrdinates requested mImpliesZ = h.presentOrdinates requested mImpliesZ := by
  rw [presentOrdinates_eq, presentOrdinates_eq] at hz hm ⊢
  rw [Presence.z_presentIn, Presence.z_presentIn] at hz
  rw [Presence.m_presentIn, Presence.m_presentIn] at hm
  rw [Presence.presentIn, Presence.presentIn, hz, hm]

/-- **What is found is what is there.** X and Y always are. M is found if it is requested and some
coordinate has one; Z is found if it is requested and some coordinate has one, or with an M that is
found, where M implies Z. So the order of the coordinates, and of what holds them, does not
matter. -/
theorem presentOrdinates_iff (requested : Ordinates) (mImpliesZ : Bool) (g : Geometry) :
    ((g.presentOrdinates requested mImpliesZ).has Ordinates.xBit = true ∧
      (g.presentOrdinates requested mImpliesZ).has Ordinates.yBit = true) ∧
    ((g.presentOrdinates requested mImpliesZ).m = true ↔
      requested.m = true ∧ ∃ c ∈ g.coordinates, c.m.isNaN = false) ∧
    ((g.presentOrdinates requested mImpliesZ).z = true ↔
      (requested.z = true ∧ ∃ c ∈ g.coordinates, c.z.isNaN = false) ∨
        (mImpliesZ = true ∧ requested.m = true ∧ ∃ c ∈ g.coordinates, c.m.isNaN = false)) ∧
    ∀ h : Geometry, h.coordinates.Perm g.coordinates →
      h.presentOrdinates requested mImpliesZ = g.presentOrdinates requested mImpliesZ := by
  refine ⟨?_, ?_, ?_, fun h hperm => ?_⟩
  · rw [presentOrdinates_eq]
    exact ⟨Ordinates.has_of (by decide) _ _, Ordinates.has_of (by decide) _ _⟩
  · rw [presentOrdinates_eq]
    simp [Coordinate.hasM]
  · rw [presentOrdinates_eq]
    simp [Coordinate.hasZ, Coordinate.hasM, and_assoc]
  · rw [presentOrdinates_eq, presentOrdinates_eq]
    simp only [Presence.presentIn, hperm.any_eq]

/-- Z and M are found in two points, whichever comes first. -/
theorem presentOrdinates_swapped :
    let zero : Ordinate := ⟨0⟩
    let inZ : Geometry := .point (some (.xyz zero zero zero))
    let inM : Geometry := .point (some (.xym zero zero zero))
    (collection [inZ, inM]).presentOrdinates .xyzm false = .xyzm ∧
    (collection [inM, inZ]).presentOrdinates .xyzm false =
      (collection [inZ, inM]).presentOrdinates .xyzm false := by
  intro zero inZ inM
  have hperm : (collection [inM, inZ]).coordinates.Perm (collection [inZ, inM]).coordinates :=
    .swap _ _ []
  obtain ⟨_, _, _, hsame⟩ := presentOrdinates_iff .xyzm false (collection [inZ, inM])
  exact ⟨by decide, hsame _ hperm⟩

end Geometry

end LatLonText
