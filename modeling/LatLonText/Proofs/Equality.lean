/-
# When geometries are equal

Equality of numbers is equality of bits but for two things: zero has no sign, and
a NaN equals nothing. So two ordinates are equal when they are the same without
the sign of zero and the first is no NaN (`Ordinate.beq_iff`). This carries over to
coordinates, to lists of what it holds for (`beq_list_iff`), and so to polygons and
geometries: two geometries are equal when they are the same without the signs of
zeros and each coordinate of the first has all four ordinates (`Geometry.beq_iff`).
Equality is therefore symmetric and transitive, and a geometry equals itself exactly
if nothing in it is absent.

Key definitions: `Ordinate.unsignZero`, `Coordinate.unsignZeros`, `Coordinate.IsFull`.
Key theorems: `beq_list_iff`, `Geometry.beq_iff`, `Geometry.beq_comm`,
`Geometry.beq_trans`, `Geometry.beq_self_iff`.
-/
import LatLonText.Geometry.Equality
import LatLonText.Proofs.Geometry

namespace LatLonText

/-! ### Equality by images -/

section Images

variable {α γ : Type} [BEq α] {f : α → γ} {P : α → Prop}

/-- **Lists** of what is equal by its image and by being `P` are equal in the same way. -/
theorem beq_list_iff : ∀ {as : List α}, (∀ a ∈ as, ∀ b, (a == b) = true ↔ f a = f b ∧ P a) →
    ∀ bs : List α, (as == bs) = true ↔ as.map f = bs.map f ∧ ∀ a ∈ as, P a
  | [], _, bs => by cases bs <;> simp
  | a :: as, _, [] => by simp
  | a :: as, h, b :: bs => by
    obtain ⟨ha, has⟩ := List.forall_mem_cons.mp h
    rw [List.cons_beq_cons, Bool.and_eq_true, ha b, beq_list_iff has bs, List.map_cons,
      List.map_cons, List.cons.injEq, List.forall_mem_cons]
    exact and_and_and_comm

theorem beq_option_iff (h : ∀ a b : α, (a == b) = true ↔ f a = f b ∧ P a) (x y : Option α) :
    (x == y) = true ↔ x.map f = y.map f ∧ ∀ a ∈ x, P a := by
  cases x <;> cases y <;> simp [h]

end Images

/-! ### Ordinates and coordinates -/

namespace Ordinate

/-- The ordinate, with no sign if it is zero. -/
def unsignZero (v : Ordinate) : Ordinate :=
  if v.magnitude = 0 then ⟨0⟩ else v

@[simp]
theorem magnitude_unsignZero (v : Ordinate) : v.unsignZero.magnitude = v.magnitude := by
  unfold unsignZero
  split
  · rename_i hzero
    rw [hzero]
    rfl
  · rfl

@[simp]
theorem isNaN_unsignZero (v : Ordinate) : v.unsignZero.isNaN = v.isNaN := by
  rw [isNaN, isNaN, magnitude_unsignZero]

theorem unsignZero_eq_iff {v w : Ordinate} :
    v.unsignZero = w.unsignZero ↔ v.bits = w.bits ∨ (v.magnitude = 0 ∧ w.magnitude = 0) := by
  constructor
  · intro h
    have hmagnitude : v.magnitude = w.magnitude := by
      rw [← v.magnitude_unsignZero, h, magnitude_unsignZero]
    by_cases hzero : v.magnitude = 0
    · exact .inr ⟨hzero, hmagnitude ▸ hzero⟩
    · rw [unsignZero, unsignZero, if_neg hzero, if_neg (hmagnitude ▸ hzero)] at h
      exact .inl (congrArg bits h)
  · rintro (hbits | ⟨hv, hw⟩)
    · rw [show v = w from congrArg Ordinate.mk hbits]
    · rw [unsignZero, unsignZero, if_pos hv, if_pos hw]

/-- **Numbers are equal** when they are the same without the sign of zero. -/
theorem beq_iff (v w : Ordinate) :
    (v == w) = true ↔ v.unsignZero = w.unsignZero ∧ v.isNaN = false := by
  have hbeq : (v == w) = true ↔
      (v.isNaN = false ∧ w.isNaN = false) ∧
        (v.bits = w.bits ∨ v.magnitude = 0 ∧ w.magnitude = 0) := by
    show v.numberEq w = true ↔ _
    simp [numberEq]
  rw [hbeq, ← unsignZero_eq_iff]
  refine ⟨fun ⟨⟨hv, _⟩, hsame⟩ => ⟨hsame, hv⟩, fun ⟨hsame, hv⟩ => ⟨⟨hv, ?_⟩, hsame⟩⟩
  rw [← w.isNaN_unsignZero, ← hsame, isNaN_unsignZero, hv]

end Ordinate

namespace Coordinate

/-- The coordinate without the signs of zeros. -/
def unsignZeros (c : Coordinate) : Coordinate :=
  ⟨c.x.unsignZero, c.y.unsignZero, c.z.unsignZero, c.m.unsignZero⟩

/-- All four ordinates are there. -/
def IsFull (c : Coordinate) : Prop :=
  c.x.isNaN = false ∧ c.y.isNaN = false ∧ c.z.isNaN = false ∧ c.m.isNaN = false

theorem isFull_unsignZeros (c : Coordinate) : c.unsignZeros.IsFull ↔ c.IsFull := by
  simp only [IsFull, unsignZeros, Ordinate.isNaN_unsignZero]

/-- **Coordinates are equal** when they are the same without the signs of zeros and full. -/
theorem beq_iff (c d : Coordinate) :
    (c == d) = true ↔ c.unsignZeros = d.unsignZeros ∧ c.IsFull := by
  show c.numberEq d = true ↔ _
  simp only [numberEq, Bool.and_eq_true, Ordinate.beq_iff, unsignZeros, IsFull, Coordinate.mk.injEq]
  tauto

theorem sequence_beq_iff (cs ds : List Coordinate) :
    (cs == ds) = true ↔ cs.map unsignZeros = ds.map unsignZeros ∧ ∀ c ∈ cs, c.IsFull :=
  beq_list_iff (fun c _ d => c.beq_iff d) ds

end Coordinate

/-! ### Polygons and geometries -/

theorem Polygon.beq_iff (p q : Polygon) :
    (p == q) = true ↔
      p.mapCoordinates Coordinate.unsignZeros = q.mapCoordinates Coordinate.unsignZeros ∧
        ∀ ring ∈ p.rings, ∀ c ∈ ring, c.IsFull := by
  have hbeq : (p == q) = true ↔
      (p.exterior == q.exterior) = true ∧ (p.interiors == q.interiors) = true := by
    show p.numberEq q = true ↔ _
    rw [numberEq, Bool.and_eq_true]
  rw [hbeq, Coordinate.sequence_beq_iff,
    beq_list_iff (fun cs _ ds => Coordinate.sequence_beq_iff cs ds), rings, List.forall_mem_cons,
    mapCoordinates, mapCoordinates, Polygon.mk.injEq]
  exact and_and_and_comm

namespace Geometry

theorem membersEq_eq : ∀ gs hs : List Geometry, membersEq gs hs = (gs == hs)
  | [], [] => rfl
  | [], _ :: _ => rfl
  | _ :: _, [] => rfl
  | g :: gs, h :: hs => by
    rw [membersEq, membersEq_eq gs hs]
    rfl

theorem beq_iff_sequences (a b : Geometry) :
    (a == b) = true ↔
      a.mapCoordinates Coordinate.unsignZeros = b.mapCoordinates Coordinate.unsignZeros ∧
        ∀ cs ∈ a.sequences, ∀ c ∈ cs, c.IsFull := by
  have hpoint := beq_option_iff Coordinate.beq_iff
  have hsequence := Coordinate.sequence_beq_iff
  show a.numberEq b = true ↔ _
  -- geometries of two kinds are neither equal nor the same without the signs of zeros
  induction a generalizing b with
  | point c =>
    cases b with
    | point d => simp [numberEq, mapCoordinates, sequences, hpoint]
    | _ => simp [numberEq, mapCoordinates]
  | lineString cs =>
    cases b with
    | lineString ds => simp [numberEq, mapCoordinates, sequences, hsequence]
    | _ => simp [numberEq, mapCoordinates]
  | linearRing cs =>
    cases b with
    | linearRing ds => simp [numberEq, mapCoordinates, sequences, hsequence]
    | _ => simp [numberEq, mapCoordinates]
  | polygon p =>
    cases b with
    | polygon q => simp [numberEq, mapCoordinates, sequences, Polygon.beq_iff]
    | _ => simp [numberEq, mapCoordinates]
  | multiPoint ps =>
    cases b with
    | multiPoint qs =>
      have hpoints := beq_list_iff (fun x (_ : x ∈ ps) y => hpoint x y) qs
      simp [numberEq, mapCoordinates, sequences, hpoints]
    | _ => simp [numberEq, mapCoordinates]
  | multiLineString ls =>
    cases b with
    | multiLineString ks =>
      have hlines := beq_list_iff (fun cs (_ : cs ∈ ls) ds => hsequence cs ds) ks
      simp [numberEq, mapCoordinates, sequences, hlines]
    | _ => simp [numberEq, mapCoordinates]
  | multiPolygon ps =>
    cases b with
    | multiPolygon qs =>
      have hpolygons := beq_list_iff (fun p (_ : p ∈ ps) q => p.beq_iff q) qs
      rw [numberEq, mapCoordinates, mapCoordinates, sequences, List.forall_mem_flatMap, hpolygons,
        multiPolygon.injEq]
    | _ => simp [numberEq, mapCoordinates]
  | collection gs ih =>
    cases b with
    | collection hs =>
      have hmembers := beq_list_iff ih hs
      rw [numberEq, membersEq_eq, mapCoordinates_collection, mapCoordinates_collection,
        sequences_collection, List.forall_mem_flatMap, hmembers, collection.injEq]
    | _ => simp [numberEq, mapCoordinates]

/-- **Geometries are equal** when they are the same without the signs of zeros, and each coordinate,
at any depth and in any ring, is full. -/
theorem beq_iff (a b : Geometry) :
    (a == b) = true ↔
      a.mapCoordinates Coordinate.unsignZeros = b.mapCoordinates Coordinate.unsignZeros ∧
        ∀ c ∈ a.coordinates, c.IsFull := by
  rw [beq_iff_sequences, coordinates, List.forall_mem_flatten]

/-! ### The laws of equality -/

/-- What is the same without the signs of zeros is full alike. -/
theorem isFull_of_unsignZeros_eq {a b : Geometry}
    (h : a.mapCoordinates Coordinate.unsignZeros = b.mapCoordinates Coordinate.unsignZeros)
    (ha : ∀ c ∈ a.coordinates, c.IsFull) : ∀ c ∈ b.coordinates, c.IsFull := by
  have hfull : ∀ g : Geometry, (∀ c ∈ (g.mapCoordinates Coordinate.unsignZeros).coordinates,
      c.IsFull) ↔ ∀ c ∈ g.coordinates, c.IsFull := fun g => by
    rw [coordinates_mapCoordinates, List.forall_mem_map]
    simp only [Coordinate.isFull_unsignZeros]
  rw [← hfull, ← h, hfull]
  exact ha

theorem beq_comm (a b : Geometry) : (a == b) = (b == a) := by
  have hhalf : ∀ {a b : Geometry}, (a == b) = true → (b == a) = true := fun {a b} hab => by
    rw [beq_iff] at hab ⊢
    exact ⟨hab.1.symm, isFull_of_unsignZeros_eq hab.1 hab.2⟩
  exact Bool.eq_iff_iff.mpr ⟨hhalf, hhalf⟩

theorem beq_trans {a b c : Geometry} (hab : (a == b) = true) (hbc : (b == c) = true) :
    (a == c) = true := by
  rw [beq_iff] at hab hbc ⊢
  exact ⟨hab.1.trans hbc.1, hab.2⟩

/-- A geometry equals itself if nothing in it is absent. -/
theorem beq_self_iff (a : Geometry) : (a == a) = true ↔ ∀ c ∈ a.coordinates, c.IsFull := by
  rw [beq_iff]
  exact and_iff_right rfl

end Geometry

end LatLonText
