/-
# Rounding to a binary format, as laws

Magnitudes ascend with their numbers (`value_strictMono`), and between one and
the next lies a middle. Of rounding to the nearest magnitude one law says
everything: which numbers round to magnitude `m` or less (`nearest_le_iff`). So
rounding keeps order (`nearest_mono`), leaves the magnitudes of the format where
they are (`nearest_value`), and takes back to a magnitude whatever is closer to
it than a part in `2 ^ (fractionBits + 2)` (`nearest_eq_of_close`).

Key definitions: `BinaryFormat.middle`.
Key theorems: `BinaryFormat.nearest_le_iff`, `BinaryFormat.nearest_eq_of_close`.
-/
import LatLonText.Binary
import LatLonText.Proofs.Rounding

namespace LatLonText.BinaryFormat

variable (f : BinaryFormat)

theorem stride_eq : f.stride = 2 ^ f.fractionBits := rfl

theorem stride_pos : 0 < f.stride := Nat.pow_pos (by norm_num)

theorem two_zpow_pos (e : Int) : (0 : Rat) < (2 : Rat) ^ e := zpow_pos (by norm_num) e

/-! ### Magnitudes and their values -/

/-- Counted from any multiple of the stride, magnitudes are multiples of one power of two up to
the second power of two that comes. -/
theorem value_add {k j : Nat} (hk : k = 0 ∨ f.stride ≤ j) (hj : j ≤ 2 * f.stride) :
    f.value (k * f.stride + j) = j * (2 : Rat) ^ (f.minExponent + k) := by
  have hs := f.stride_pos
  unfold value significand exponent
  by_cases hlow : k * f.stride + j < f.stride
  · have hk0 : k = 0 := by
      rcases hk with hk | hk
      · exact hk
      · omega
    subst hk0
    simp only [Nat.zero_mul, Nat.zero_add] at hlow ⊢
    rw [if_pos hlow, Nat.div_eq_of_lt hlow]
  · rw [if_neg hlow]
    have hj1 : f.stride ≤ j := by
      rcases hk with rfl | hk
      · omega
      · exact hk
    obtain ⟨i, rfl⟩ := Nat.exists_eq_add_of_le hj1
    have hmod : (k * f.stride + (f.stride + i)) % f.stride = i % f.stride := by
      rw [← Nat.add_assoc, ← Nat.succ_mul, Nat.add_comm, Nat.add_mul_mod_self_right]
    have hdiv : (k * f.stride + (f.stride + i)) / f.stride = k + 1 + i / f.stride := by
      rw [← Nat.add_assoc, ← Nat.succ_mul, Nat.add_comm, Nat.add_mul_div_right _ _ hs]; omega
    rw [hmod, hdiv]
    rcases Nat.lt_or_eq_of_le (show i ≤ f.stride by omega) with hi | rfl
    · rw [Nat.mod_eq_of_lt hi, Nat.div_eq_of_lt hi]
      simp
    · rw [Nat.mod_self, Nat.div_self hs]
      have he : f.minExponent + ((k + 1 + 1 - 1 : Nat) : Int) = f.minExponent + k + 1 := by
        push_cast; omega
      rw [he, zpow_add₀ (by norm_num) (f.minExponent + k) 1]
      push_cast; ring

/-- Every magnitude is counted so. -/
theorem exists_binade (m : Nat) :
    ∃ k j, m = k * f.stride + j ∧ (k = 0 ∨ f.stride ≤ j) ∧ j < 2 * f.stride := by
  have hs := f.stride_pos
  have hm := Nat.div_add_mod m f.stride
  have hlt := Nat.mod_lt m hs
  rcases Nat.eq_zero_or_pos (m / f.stride) with h0 | h0
  · exact ⟨0, m, by simp, .inl rfl, by rw [h0] at hm; omega⟩
  · obtain ⟨q, hq⟩ : ∃ q, m / f.stride = q + 1 := ⟨m / f.stride - 1, by omega⟩
    refine ⟨q, f.stride + m % f.stride, ?_, .inr (Nat.le_add_right _ _), by omega⟩
    rw [hq] at hm
    calc m = f.stride * (q + 1) + m % f.stride := hm.symm
      _ = q * f.stride + (f.stride + m % f.stride) := by ring

/-- The step from a magnitude to the next. -/
theorem value_succ {k j : Nat} (hk : k = 0 ∨ f.stride ≤ j) (hj : j < 2 * f.stride) :
    f.value (k * f.stride + j + 1) =
      f.value (k * f.stride + j) + (2 : Rat) ^ (f.minExponent + k) := by
  rw [Nat.add_assoc, f.value_add (k := k) (j := j + 1) (by omega) (by omega),
    f.value_add hk (by omega)]
  push_cast; ring

theorem value_strictMono : StrictMono f.value := by
  refine strictMono_nat_of_lt_succ fun m => ?_
  obtain ⟨k, j, rfl, hk, hj⟩ := f.exists_binade m
  have := two_zpow_pos (f.minExponent + k)
  rw [f.value_succ hk hj]
  linarith

theorem value_nonneg (m : Nat) : 0 ≤ f.value m := by
  rw [← f.value_zero]
  exact f.value_strictMono.monotone (Nat.zero_le m)

theorem value_pos {m : Nat} (hm : 0 < m) : 0 < f.value m := by
  rw [← f.value_zero]
  exact f.value_strictMono hm

/-! ### The middle between two magnitudes -/

/-- The number halfway between a magnitude and the next. -/
def middle (m : Nat) : Rat :=
  (f.value m + f.value (m + 1)) / 2

theorem value_lt_middle (m : Nat) : f.value m < f.middle m := by
  have := f.value_strictMono (Nat.lt_succ_self m)
  unfold middle
  linarith

theorem middle_lt_value_succ (m : Nat) : f.middle m < f.value (m + 1) := by
  have := f.value_strictMono (Nat.lt_succ_self m)
  unfold middle
  linarith

theorem middle_add {k j : Nat} (hk : k = 0 ∨ f.stride ≤ j) (hj : j < 2 * f.stride) :
    f.middle (k * f.stride + j) = (j + 1 / 2) * (2 : Rat) ^ (f.minExponent + k) := by
  rw [middle, f.value_succ hk hj, f.value_add hk (by omega)]
  ring

/-! ### The nearest magnitude -/

/-- A positive number in units of its binade, and what it rounds to there. -/
theorem exists_scaled {r : Rat} (hr : 0 < r) :
    ∃ (k : Nat) (s : Rat), r = s * (2 : Rat) ^ (f.minExponent + k) ∧ 0 < s ∧ s < 2 * f.stride ∧
      (k = 0 ∨ (f.stride : Rat) ≤ s) ∧
      f.nearest r = min f.infinity (k * f.stride + roundHalfEven s) := by
  set e := max f.minExponent (binaryLog r - (f.fractionBits : Int)) with he
  have hpos := two_zpow_pos e
  have hstride : (f.stride : Rat) = (2 : Rat) ^ (f.fractionBits : Int) := by
    rw [zpow_natCast, stride_eq]; push_cast; rfl
  obtain ⟨k, hk⟩ : ∃ k : Nat, e = f.minExponent + k := ⟨(e - f.minExponent).toNat, by omega⟩
  refine ⟨k, r * (2 : Rat) ^ (-e), ?_, ?_, ?_, ?_, ?_⟩
  · rw [← hk, mul_assoc, ← zpow_add₀ (by norm_num)]; simp
  · exact mul_pos hr (two_zpow_pos _)
  · have hlt : r < (2 : Rat) ^ (e + f.fractionBits + 1) :=
      (lt_two_zpow_binaryLog hr).trans_le (zpow_le_zpow_right₀ (by norm_num) (by omega))
    calc r * (2 : Rat) ^ (-e) < (2 : Rat) ^ (e + f.fractionBits + 1) * (2 : Rat) ^ (-e) :=
          mul_lt_mul_of_pos_right hlt (two_zpow_pos _)
      _ = 2 * f.stride := by
        rw [hstride, ← zpow_add₀ (by norm_num)]
        rw [show e + f.fractionBits + 1 + -e = 1 + f.fractionBits by ring, zpow_add₀ (by norm_num)]
        simp
  · rcases Nat.eq_zero_or_pos k with h0 | h0
    · exact .inl h0
    · right
      have hle : (2 : Rat) ^ (e + f.fractionBits) ≤ r :=
        (zpow_le_zpow_right₀ (by norm_num) (by omega)).trans (two_zpow_binaryLog_le hr)
      calc (f.stride : Rat) = (2 : Rat) ^ (e + f.fractionBits) * (2 : Rat) ^ (-e) := by
            rw [hstride, ← zpow_add₀ (by norm_num)]; congr 1; ring
        _ ≤ r * (2 : Rat) ^ (-e) := mul_le_mul_of_nonneg_right hle (two_zpow_pos _).le
  · have htoNat : (e - f.minExponent).toNat = k := by omega
    unfold nearest
    rw [if_neg (not_le.mpr hr)]
    simp only [← he, htoNat]

variable {f}

theorem stride_mod_two (hf : 0 < f.fractionBits) : f.stride % 2 = 0 := by
  obtain ⟨b, hb⟩ : ∃ b, f.fractionBits = b + 1 := ⟨f.fractionBits - 1, by omega⟩
  rw [stride_eq, hb, Nat.pow_succ]
  omega

/-- A number in a binade lies beyond the middles of the magnitudes below the binade. -/
theorem middle_lt_of_below {k m : Nat} {s : Rat} (hs : (f.stride : Rat) ≤ s)
    (hm : m < k * f.stride + f.stride) : f.middle m < s * (2 : Rat) ^ (f.minExponent + k) := by
  calc f.middle m < f.value (m + 1) := f.middle_lt_value_succ m
    _ ≤ f.value (k * f.stride + f.stride) := f.value_strictMono.monotone hm
    _ = f.stride * (2 : Rat) ^ (f.minExponent + k) := f.value_add (.inr le_rfl) (by omega)
    _ ≤ s * (2 : Rat) ^ (f.minExponent + k) :=
        mul_le_mul_of_nonneg_right hs (two_zpow_pos _).le

/-- And before those of the magnitudes above it. -/
theorem lt_middle_of_above {k m : Nat} {s : Rat} (hs : s < 2 * f.stride)
    (hm : k * f.stride + 2 * f.stride ≤ m) : s * (2 : Rat) ^ (f.minExponent + k) < f.middle m := by
  calc s * (2 : Rat) ^ (f.minExponent + k)
      < ((2 * f.stride : Nat) : Rat) * (2 : Rat) ^ (f.minExponent + k) := by
        push_cast; exact mul_lt_mul_of_pos_right hs (two_zpow_pos _)
    _ = f.value (k * f.stride + 2 * f.stride) := (f.value_add (.inr (by omega)) le_rfl).symm
    _ ≤ f.value m := f.value_strictMono.monotone hm
    _ < f.middle m := f.value_lt_middle m

/-- Within its binade a number is compared with a middle as its multiple of the unit is. -/
theorem middle_in_binade (hf : 0 < f.fractionBits) {k j : Nat} (hk : k = 0 ∨ f.stride ≤ j)
    (hj : j < 2 * f.stride) {s : Rat} (hs : 0 ≤ s) :
    (s * (2 : Rat) ^ (f.minExponent + k) < f.middle (k * f.stride + j) ∨
      (s * (2 : Rat) ^ (f.minExponent + k) = f.middle (k * f.stride + j) ∧
        (k * f.stride + j) % 2 = 0)) ↔ roundHalfEven s ≤ j := by
  have hunit := two_zpow_pos (f.minExponent + k)
  have hparity : (k * f.stride + j) % 2 = j % 2 := by
    rw [Nat.add_mod, Nat.mul_mod, stride_mod_two hf]; simp
  rw [f.middle_add hk hj, mul_lt_mul_iff_left₀ hunit, mul_left_inj' hunit.ne', hparity,
    ← roundHalfEven_le_iff hs]

theorem stride_le_roundHalfEven {s : Rat} (hs : (f.stride : Rat) ≤ s) :
    f.stride ≤ roundHalfEven s := by
  have hstride := f.stride_pos
  have hs0 : 0 ≤ s := (Nat.cast_nonneg _).trans hs
  by_contra hlt
  have hle : roundHalfEven s ≤ f.stride - 1 := by omega
  rw [roundHalfEven_le_iff hs0, Nat.cast_pred hstride] at hle
  rcases hle with h | ⟨h, -⟩ <;> linarith

/-- **What rounding to a format does.** Up to a finite magnitude `m` round the numbers below the
middle to the next one, and the middle itself if `m` is even. -/
theorem nearest_le_iff (hf : 0 < f.fractionBits) {m : Nat} (hm : m < f.infinity) (r : Rat) :
    f.nearest r ≤ m ↔ r < f.middle m ∨ (r = f.middle m ∧ m % 2 = 0) := by
  rcases le_or_gt r 0 with hr | hr
  · have hmid : r < f.middle m := hr.trans_lt ((f.value_nonneg m).trans_lt (f.value_lt_middle m))
    have h0 : f.nearest r = 0 := by rw [nearest, if_pos hr]
    simp [h0, hmid]
  obtain ⟨k, s, rfl, hs0, hs2, hsk, hnear⟩ := f.exists_scaled hr
  rw [show f.nearest _ ≤ m ↔ k * f.stride + roundHalfEven s ≤ m by rw [hnear]; omega]
  have hround : roundHalfEven s ≤ 2 * f.stride := by
    rw [roundHalfEven_le_iff hs0.le]; left; push_cast; linarith
  -- `m` lies below the binade of the number, above it, or in it.
  by_cases hbelow : 0 < k ∧ m < k * f.stride + f.stride
  · obtain ⟨hk, hmk⟩ := hbelow
    have hsk : (f.stride : Rat) ≤ s := hsk.resolve_left (by omega)
    have hge := stride_le_roundHalfEven hsk
    have hmid := middle_lt_of_below hsk hmk
    refine ⟨fun h => by omega, ?_⟩
    rintro (h | ⟨h, -⟩) <;> linarith
  · by_cases habove : k * f.stride + 2 * f.stride ≤ m
    · exact ⟨fun _ => .inl (lt_middle_of_above hs2 habove), fun _ => by omega⟩
    · have hk : k = 0 ∨ k * f.stride + f.stride ≤ m := by omega
      obtain ⟨j, rfl⟩ : ∃ j, m = k * f.stride + j := by
        refine ⟨m - k * f.stride, ?_⟩
        rcases hk with rfl | hk
        · simp
        · omega
      rw [middle_in_binade hf (by omega) (by omega) hs0.le]
      omega

/-- Rounding keeps order. -/
theorem nearest_mono (hf : 0 < f.fractionBits) {r s : Rat} (h : r ≤ s) :
    f.nearest r ≤ f.nearest s := by
  rcases Nat.lt_or_ge (f.nearest s) f.infinity with hs | hs
  · rw [nearest_le_iff hf hs]
    rcases (nearest_le_iff hf hs s).mp le_rfl with hlt | ⟨heq, heven⟩
    · exact .inl (h.trans_lt hlt)
    · rcases h.lt_or_eq with h | h
      · exact .inl (heq ▸ h)
      · exact .inr ⟨h.trans heq, heven⟩
  · exact (f.nearest_le_infinity r).trans hs

/-- What lies strictly between the middles on its two sides rounds to a magnitude. -/
theorem nearest_eq_of_between (hf : 0 < f.fractionBits) {m : Nat} (hm : m < f.infinity) {r : Rat}
    (hlow : ∀ n, n + 1 = m → f.middle n < r) (hhigh : r < f.middle m) : f.nearest r = m := by
  refine Nat.le_antisymm ((nearest_le_iff hf hm r).mpr (.inl hhigh)) ?_
  cases m with
  | zero => exact Nat.zero_le _
  | succ n =>
    by_contra hlt
    have hle : f.nearest r ≤ n := by omega
    rw [nearest_le_iff hf (by omega)] at hle
    have := hlow n rfl
    rcases hle with h | ⟨h, -⟩ <;> linarith

/-- What rounds to a positive magnitude is positive. -/
theorem pos_of_nearest_pos {r : Rat} (h : 0 < f.nearest r) : 0 < r := by
  by_contra hr
  rw [nearest, if_pos (not_lt.mp hr)] at h
  exact absurd h (Nat.lt_irrefl 0)

/-- The magnitudes of the format stay where they are. -/
theorem nearest_value (hf : 0 < f.fractionBits) {m : Nat} (hm : m < f.infinity) :
    f.nearest (f.value m) = m := by
  refine nearest_eq_of_between hf hm (fun n hn => ?_) (f.value_lt_middle m)
  rw [← hn]
  exact f.middle_lt_value_succ n

/-- A magnitude is less than `2 * stride` of the gap above it. -/
theorem value_lt_mul_gap (m : Nat) :
    f.value m < 2 * f.stride * (f.value (m + 1) - f.value m) := by
  obtain ⟨k, j, rfl, hk, hj⟩ := f.exists_binade m
  have hj' : (j : Rat) < 2 * f.stride := by exact_mod_cast hj
  rw [f.value_succ hk hj, f.value_add hk hj.le, add_sub_cancel_left]
  exact mul_lt_mul_of_pos_right hj' (two_zpow_pos _)

/-- A magnitude is at most `2 * stride` of the gap below it. -/
theorem value_le_mul_gap_below (n : Nat) :
    f.value (n + 1) ≤ 2 * f.stride * (f.value (n + 1) - f.value n) := by
  obtain ⟨k, j, rfl, hk, hj⟩ := f.exists_binade n
  have hj' : ((j + 1 : Nat) : Rat) ≤ ((2 * f.stride : Nat) : Rat) := by exact_mod_cast hj
  rw [f.value_succ hk hj, add_sub_cancel_left, f.value_add hk hj.le]
  push_cast at hj'
  calc (j : Rat) * (2 : Rat) ^ (f.minExponent + k) + (2 : Rat) ^ (f.minExponent + k)
      = (j + 1) * (2 : Rat) ^ (f.minExponent + k) := by ring
    _ ≤ 2 * f.stride * (2 : Rat) ^ (f.minExponent + k) :=
        mul_le_mul_of_nonneg_right hj' (two_zpow_pos _).le

/-- **Close enough reads back.** What differs from a magnitude by less than its
`2 ^ (fractionBits + 2)`-th part rounds to it. -/
theorem nearest_eq_of_close (hf : 0 < f.fractionBits) {m : Nat} (hm : m < f.infinity) {r : Rat}
    (hclose : 2 ^ (f.fractionBits + 2) * |r - f.value m| < f.value m) : f.nearest r = m := by
  have hpow : (2 : Rat) ^ (f.fractionBits + 2) = 4 * f.stride := by
    rw [stride_eq, pow_add]; push_cast; ring
  have hs : (0 : Rat) < 2 * f.stride := by have := f.stride_pos; positivity
  have hhalf : ∀ gap : Rat, f.value m ≤ 2 * f.stride * gap → |r - f.value m| < gap / 2 := by
    intro gap hgap
    refine lt_of_mul_lt_mul_left ?_ hs.le
    rw [hpow] at hclose
    linarith
  refine nearest_eq_of_between hf hm (fun n hn => ?_) ?_
  · subst hn
    have hgap := (abs_lt.mp (hhalf _ (f.value_le_mul_gap_below n))).1
    unfold middle
    linarith
  · have hgap := (abs_lt.mp (hhalf _ (f.value_lt_mul_gap m).le)).2
    unfold middle
    linarith

end LatLonText.BinaryFormat
