/-
# The nearest magnitude, by distances

Which numbers round to a magnitude or less was said by middles (`nearest_le_iff`).
Here the same is said without them: a number rounds to the one magnitude that is
at least as close to it as any other, and of two equally close ones to the one
whose last bit is zero (`isNearest_iff`). Infinity takes part as the power of two
that would come next.

Key definitions: `BinaryFormat.IsNearest`.
Key theorems: `BinaryFormat.isNearest_iff`, `BinaryFormat.abs_sub_nearest_le`.
-/
import LatLonText.Proofs.Nearest

namespace LatLonText.BinaryFormat

variable {f : BinaryFormat}

/-! ### On which side of a middle a number lies -/

theorem le_middle_nearest (hf : 0 < f.fractionBits) {r : Rat} (hm : f.nearest r < f.infinity) :
    r ≤ f.middle (f.nearest r) := by
  rcases (nearest_le_iff hf hm r).mp le_rfl with h | ⟨h, -⟩
  · exact h.le
  · exact h.le

theorem middle_le_of_lt_nearest (hf : 0 < f.fractionBits) {r : Rat} {k : Nat}
    (hk : k < f.nearest r) : f.middle k ≤ r := by
  have hfinite : k < f.infinity := hk.trans_le (f.nearest_le_infinity r)
  by_contra hlt
  have := (nearest_le_iff hf hfinite r).mpr (.inl (not_le.mp hlt))
  omega

/-- A middle goes up only from an odd magnitude. -/
theorem odd_of_middle_lt_nearest (hf : 0 < f.fractionBits) {k : Nat}
    (hk : k < f.nearest (f.middle k)) : k % 2 = 1 := by
  have hfinite : k < f.infinity := hk.trans_le (f.nearest_le_infinity _)
  by_contra heven
  have := (nearest_le_iff hf hfinite (f.middle k)).mpr (.inr ⟨rfl, by omega⟩)
  omega

/-- A middle stays down only at an even magnitude. -/
theorem even_of_nearest_middle_le (hf : 0 < f.fractionBits) {k : Nat} (hfinite : k < f.infinity)
    (hk : f.nearest (f.middle k) ≤ k) : k % 2 = 0 := by
  rcases (nearest_le_iff hf hfinite _).mp hk with h | ⟨-, h⟩
  · exact absurd h (lt_irrefl _)
  · exact h

/-- Finite magnitudes are what stays below the middle after the last of them, which is odd. -/
theorem nearest_lt_infinity_iff (hf : 0 < f.fractionBits) (hodd : f.infinity % 2 = 0)
    (hinf : 0 < f.infinity) (r : Rat) :
    f.nearest r < f.infinity ↔ r < f.middle (f.infinity - 1) := by
  have hlaw := nearest_le_iff hf (show f.infinity - 1 < f.infinity by omega) r
  constructor
  · intro h
    rcases hlaw.mp (by omega) with h | ⟨-, h⟩
    · exact h
    · omega
  · intro h
    have := hlaw.mpr (.inl h)
    omega

/-! ### Nearest by distance -/

/-- Whether `m` is the magnitude nearest to `r`; of two magnitudes equally near it is the one whose
last bit is zero. Infinity counts as the power of two that would come next. -/
def IsNearest (f : BinaryFormat) (r : Rat) (m : Nat) : Prop :=
  m ≤ f.infinity ∧ ∀ k ≤ f.infinity, k ≠ m →
    |r - f.value m| < |r - f.value k| ∨ (|r - f.value m| = |r - f.value k| ∧ m % 2 = 0)

/-- What lies at or beyond the middle is no closer to the lower magnitudes, and as close only if the
last bit above the middle is zero. -/
theorem closer_than_below (hf : 0 < f.fractionBits) {r : Rat} {k : Nat} (hk : k < f.nearest r) :
    |r - f.value (f.nearest r)| < |r - f.value k| ∨
      (|r - f.value (f.nearest r)| = |r - f.value k| ∧ f.nearest r % 2 = 0) := by
  obtain ⟨p, hp⟩ : ∃ p, f.nearest r = p + 1 := ⟨f.nearest r - 1, by omega⟩
  have hmid := middle_le_of_lt_nearest hf (show p < f.nearest r by omega)
  have hkp : f.value k ≤ f.value p := f.value_strictMono.monotone (by omega)
  have hstep : f.value p < f.value (p + 1) := f.value_strictMono (Nat.lt_succ_self p)
  have hmiddle : f.middle p = (f.value p + f.value (p + 1)) / 2 := rfl
  have hrk : |r - f.value k| = r - f.value k := abs_of_nonneg (by linarith)
  rw [hp, hrk]
  rcases le_or_gt (f.value (p + 1)) r with hge | hlt
  · left
    rw [abs_of_nonneg (by linarith)]
    linarith
  · rw [abs_of_neg (by linarith)]
    rcases hmid.lt_or_eq with hmid | hmid
    · left
      linarith
    · have hodd : p % 2 = 1 := odd_of_middle_lt_nearest hf (by rw [hmid]; omega)
      rcases hkp.lt_or_eq with hkp | hkp
      · left
        linarith
      · right
        exact ⟨by linarith, by omega⟩

/-- And what lies at or below the middle is no closer to the higher ones. -/
theorem closer_than_above (hf : 0 < f.fractionBits) {r : Rat} {k : Nat} (hk : f.nearest r < k)
    (hfinite : f.nearest r < f.infinity) :
    |r - f.value (f.nearest r)| < |r - f.value k| ∨
      (|r - f.value (f.nearest r)| = |r - f.value k| ∧ f.nearest r % 2 = 0) := by
  have hmid := le_middle_nearest hf hfinite
  have heven := fun h : r = f.middle (f.nearest r) =>
    even_of_nearest_middle_le hf hfinite (h ▸ le_rfl)
  set m := f.nearest r
  have hmk : f.value (m + 1) ≤ f.value k := f.value_strictMono.monotone hk
  have hstep : f.value m < f.value (m + 1) := f.value_strictMono (Nat.lt_succ_self m)
  have hmiddle : f.middle m = (f.value m + f.value (m + 1)) / 2 := rfl
  have hrk : |r - f.value k| = f.value k - r := by
    rw [abs_of_neg (by linarith)]
    ring
  rw [hrk]
  rcases lt_or_ge r (f.value m) with hlt | hge
  · left
    rw [abs_of_neg (by linarith)]
    linarith
  · rw [abs_of_nonneg (by linarith)]
    rcases hmid.lt_or_eq with hmid | hmid
    · left
      linarith
    · rcases hmk.lt_or_eq with hmk | hmk
      · left
        linarith
      · right
        exact ⟨by linarith, heven hmid⟩

theorem isNearest_nearest (hf : 0 < f.fractionBits) (r : Rat) : f.IsNearest r (f.nearest r) := by
  refine ⟨f.nearest_le_infinity r, fun k hk hne => ?_⟩
  rcases Nat.lt_or_gt_of_ne hne with hlt | hgt
  · exact closer_than_below hf hlt
  · exact closer_than_above hf hgt (by omega)

/-- Rounding leaves no magnitude closer. -/
theorem abs_sub_nearest_le (hf : 0 < f.fractionBits) (r : Rat) {k : Nat} (hk : k ≤ f.infinity) :
    |r - f.value (f.nearest r)| ≤ |r - f.value k| := by
  rcases eq_or_ne k (f.nearest r) with rfl | hne
  · exact le_rfl
  · rcases (isNearest_nearest hf r).2 k hk hne with h | ⟨h, -⟩
    · exact h.le
    · exact h.le

/-- There is one nearest magnitude: were there two they would both be even, and equally near, with
one between them that is nearer. -/
theorem IsNearest.unique {r : Rat} {m k : Nat} (hm : f.IsNearest r m) (hk : f.IsNearest r k) :
    m = k := by
  wlog hlt : m < k generalizing m k
  · rcases Nat.lt_or_eq_of_le (not_lt.mp hlt) with h | h
    · exact (this hk hm h).symm
    · exact h.symm
  exfalso
  have hdist : |r - f.value m| = |r - f.value k| ∧ m % 2 = 0 ∧ k % 2 = 0 := by
    rcases hm.2 k hk.1 hlt.ne' with h | ⟨h, heven⟩ <;>
      rcases hk.2 m hm.1 hlt.ne with h' | ⟨h', heven'⟩
    · linarith
    · linarith
    · linarith
    · exact ⟨h, heven, heven'⟩
  obtain ⟨heq, heven, heven'⟩ := hdist
  have hbetween : m + 1 < k := by omega
  have hlow : f.value m < f.value (m + 1) := f.value_strictMono (Nat.lt_succ_self m)
  have hhigh : f.value (m + 1) < f.value k := f.value_strictMono hbetween
  have hmiddle : r = (f.value m + f.value k) / 2 := by
    rcases abs_eq_abs.mp heq with h | h <;> linarith
  have hcloser : |r - f.value (m + 1)| < |r - f.value m| := by
    rw [abs_of_pos (show 0 < r - f.value m by linarith), abs_lt]
    constructor <;> linarith
  rcases hm.2 (m + 1) (by have := hk.1; omega) (by omega) with h | ⟨h, -⟩ <;> linarith

/-- **Rounding gives the nearest magnitude**, and no other one is. -/
theorem isNearest_iff (hf : 0 < f.fractionBits) {r : Rat} {m : Nat} :
    f.IsNearest r m ↔ f.nearest r = m := by
  constructor
  · intro h
    exact (isNearest_nearest hf r).unique h
  · rintro rfl
    exact isNearest_nearest hf r

end LatLonText.BinaryFormat
