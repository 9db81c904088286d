/-
# Rounding to significant digits a second time

An ordinate is rounded to `n` significant digits in two steps: to the nearest
point of a decimal grid, and from there to the nearest ordinate. Done again, both
steps lead back to the ordinate of the first time
(`Ordinate.roundDigits_idempotent`).

As long as the ordinate keeps its leading power of ten there is nothing to fear.
It is no farther from the decimal than the one that was rounded, since it is the
nearest there is, so the decimal is the rounding of both (`IsRounding.of_closer`).
The leading power is lost or gained only across a power of ten that itself rounds
to the ordinate, and then the decimal of the second time lies between the two or
no farther from the ordinate than the power does, on its other side. On the upper
side the gap is at least as wide. On the lower side it may be half as wide, where
the exponent changes; but there either the power itself is the second decimal, or
there are so many digits that any decimal next to the ordinate reads back.

Key theorems: `IsRounding.of_closer`, `BinaryFormat.nearest_ofRat_of_ten_zpow`,
`BinaryFormat.nearest_ofRat_nearest_ofRat`, `Ordinate.roundDigits_idempotent`.
-/
import LatLonText.Proofs.Reading

namespace LatLonText

/-! ### Decimal rounding by distance -/

/-- Rounding leaves no whole number closer. -/
theorem abs_sub_roundHalfEven_le {s : Rat} (hs : 0 ≤ s) (k : Nat) :
    |s - roundHalfEven s| ≤ |s - k| := by
  have hclose := (roundHalfEven_close hs).1
  rcases eq_or_ne k (roundHalfEven s) with rfl | hne
  · exact le_rfl
  · have hapart : (1 : Rat) ≤ |(k : Rat) - roundHalfEven s| := by
      have h : (1 : Int) ≤ |(k : Int) - roundHalfEven s| := Int.one_le_abs (by omega)
      exact_mod_cast h
    have htriangle := abs_sub_le (k : Rat) s (roundHalfEven s)
    rw [abs_sub_comm (k : Rat) s] at htriangle
    linarith

namespace Decimal

variable {n : Nat} {x : Rat}

/-- Rounding to significant digits moves a number by half a unit at most. -/
theorem two_mul_abs_sub_ofRat_le (n : Nat) (hx : 0 < x) :
    2 * |x - (ofRat n x).value| ≤ (10 : Rat) ^ unitExponent n x := by
  have hunit := ten_zpow_pos (unitExponent n x)
  have hclose := (roundHalfEven_close (mul_pos hx (ten_zpow_pos (-unitExponent n x))).le).1
  rw [value_ofRat, abs_sub_mul_unit]
  have := mul_le_mul_of_nonneg_right hclose hunit.le
  linarith

/-- And it leaves no multiple of the unit closer. -/
theorem abs_sub_ofRat_le (n : Nat) (hx : 0 < x) (k : Nat) :
    |x - (ofRat n x).value| ≤ |x - k * (10 : Rat) ^ unitExponent n x| := by
  have hs : 0 ≤ x * (10 : Rat) ^ (-unitExponent n x) := (mul_pos hx (ten_zpow_pos _)).le
  rw [value_ofRat, abs_sub_mul_unit, abs_sub_mul_unit]
  exact mul_le_mul_of_nonneg_right (abs_sub_roundHalfEven_le hs k) (ten_zpow_pos _).le

/-- The powers of ten from the leading one on are multiples of the unit. -/
theorem ten_zpow_eq_mul_unit (hn : 0 < n) {j : Int} (hj : decimalLog x ≤ j) :
    ∃ k : Nat, (10 : Rat) ^ j = k * (10 : Rat) ^ unitExponent n x := by
  refine (hasDigits_ten_zpow hn j).exists_multiple (ten_zpow_pos j) ?_
  have := le_decimalLog (ten_zpow_pos j) (le_refl ((10 : Rat) ^ j))
  unfold unitExponent
  omega

theorem abs_sub_ofRat_le_ten_zpow (hn : 0 < n) (hx : 0 < x) {j : Int} (hj : decimalLog x ≤ j) :
    |x - (ofRat n x).value| ≤ |x - (10 : Rat) ^ j| := by
  obtain ⟨k, hk⟩ := ten_zpow_eq_mul_unit hn hj
  rw [hk]
  exact abs_sub_ofRat_le n hx k

/-- What rounds to less than the end of its decade rounds to a unit less, or to fewer units. -/
theorem unit_le_sub_ofRat (h : (ofRat n x).value < (10 : Rat) ^ (decimalLog x + 1)) :
    (10 : Rat) ^ unitExponent n x ≤ (10 : Rat) ^ (decimalLog x + 1) - (ofRat n x).value := by
  have hunit := ten_zpow_pos (unitExponent n x)
  rw [ten_zpow_eq_pow_mul_unit n, value_ofRat] at h ⊢
  rw [mul_lt_mul_iff_left₀ hunit] at h
  have hstep : (roundHalfEven (x * (10 : Rat) ^ (-unitExponent n x)) : Rat) + 1 ≤ 10 ^ n := by
    have hnat : roundHalfEven (x * (10 : Rat) ^ (-unitExponent n x)) < 10 ^ n := by exact_mod_cast h
    exact_mod_cast hnat
  have := mul_le_mul_of_nonneg_right hstep hunit.le
  linarith

/-- Rounding does not leave the decade, but for its upper end. -/
theorem ofRat_le_ten_zpow (hn : 0 < n) (hx : 0 < x) :
    (ofRat n x).value ≤ (10 : Rat) ^ (decimalLog x + 1) := by
  have hlt := lt_ten_zpow_decimalLog hx
  have hclose := abs_sub_ofRat_le_ten_zpow hn hx (j := decimalLog x + 1) (by omega)
  rw [abs_of_neg (by linarith : x - (10 : Rat) ^ (decimalLog x + 1) < 0)] at hclose
  linarith [neg_le_of_abs_le hclose]

theorem ten_zpow_le_ofRat (hn : 0 < n) (hx : 0 < x) :
    (10 : Rat) ^ decimalLog x ≤ (ofRat n x).value := by
  have hle := ten_zpow_decimalLog_le hx
  have hclose := abs_sub_ofRat_le_ten_zpow hn hx (j := decimalLog x) le_rfl
  rw [abs_of_nonneg (by linarith : 0 ≤ x - (10 : Rat) ^ decimalLog x)] at hclose
  linarith [le_of_abs_le hclose]

end Decimal

/-- A number that starts with the same power of ten and is no farther from the rounding has the
same rounding. -/
theorem IsRounding.of_closer {n : Nat} {x y q : Rat} (h : IsRounding n x q) (hx : 0 < x)
    (hy : 0 < y) (hlead : decimalLog x = decimalLog y) (hclose : |y - q| ≤ |x - q|) :
    IsRounding n y q := by
  obtain ⟨lead, k, hlow, hhigh, hq, hhalf, heven⟩ := h
  rw [abs_of_pos hx] at hlow hhigh
  have hlead' : lead = decimalLog y := by
    have := le_decimalLog hx hlow
    have := decimalLog_lt hx hhigh
    omega
  refine ⟨lead, k, ?_, ?_, hq, by linarith, fun htie => heven (by linarith)⟩
  · rw [hlead', abs_of_pos hy]
    exact ten_zpow_decimalLog_le hy
  · rw [hlead', abs_of_pos hy]
    exact lt_ten_zpow_decimalLog hy

namespace BinaryFormat

variable {f : BinaryFormat}

/-! ### On the other side of a magnitude -/

/-- What lies above a magnitude, no farther than something below that rounds to it, rounds to it as
well: the gap above is at least as wide. -/
theorem nearest_of_reflected_above (hf : 0 < f.fractionBits) {r r' : Rat} {m : Nat} (hm0 : 0 < m)
    (hm : m < f.infinity) (hr : f.nearest r = m) (hge : f.value m ≤ r')
    (hclose : r' - f.value m ≤ f.value m - r) : f.nearest r' = m := by
  obtain ⟨a, rfl⟩ : ∃ a, m = a + 1 := ⟨m - 1, by omega⟩
  have hgap := gap_below_le f a
  have hlow : f.middle a ≤ r := middle_le_of_lt_nearest hf (by omega)
  refine Nat.le_antisymm ((nearest_le_iff hf hm r').mpr ?_) ?_
  · rcases hlow.lt_or_eq with hlt | heq
    · left
      unfold middle at hlt ⊢
      linarith
    · have hodd := odd_of_middle_lt_nearest hf (k := a) (by rw [heq]; omega)
      have hle : r' ≤ f.middle (a + 1) := by
        unfold middle at heq ⊢
        linarith
      rcases hle.lt_or_eq with h | h
      · exact .inl h
      · exact .inr ⟨h, by omega⟩
  · rw [← nearest_value hf hm]
    exact nearest_mono hf hge

/-- And the other way round, where the gap below is no narrower than the one above. -/
theorem nearest_of_reflected_below (hf : 0 < f.fractionBits) {r r' : Rat} {a : Nat}
    (hgap : f.value (a + 2) - f.value (a + 1) ≤ f.value (a + 1) - f.value a)
    (hm : a + 1 < f.infinity) (hr : f.nearest r = a + 1) (hle : r' ≤ f.value (a + 1))
    (hclose : f.value (a + 1) - r' ≤ r - f.value (a + 1)) : f.nearest r' = a + 1 := by
  have hhigh : r ≤ f.middle (a + 1) := by
    have h := le_middle_nearest hf (hr ▸ hm)
    rwa [hr] at h
  refine Nat.le_antisymm ?_ ?_
  · calc f.nearest r' ≤ f.nearest (f.value (a + 1)) := nearest_mono hf hle
      _ = a + 1 := nearest_value hf hm
  · have hlow : f.middle a ≤ r' := by
      unfold middle at hhigh ⊢
      linarith
    by_contra hlt
    rcases (nearest_le_iff hf (by omega) r').mp (show f.nearest r' ≤ a by omega) with h | ⟨h, heven⟩
    · exact absurd hlow (not_le.mpr h)
    · have htie : r = f.middle (a + 1) := by
        unfold middle at h hhigh ⊢
        linarith
      have := even_of_nearest_middle_le hf hm (htie ▸ hr.le)
      omega

/-- Below the first full significand all gaps are the same. -/
theorem gap_eq_of_lt_stride {a : Nat} (ha : a + 1 < f.stride) :
    f.value (a + 2) - f.value (a + 1) = f.value (a + 1) - f.value a := by
  have hlow := f.value_succ (k := 0) (j := a) (.inl rfl) (by omega)
  have hhigh := f.value_succ (k := 0) (j := a + 1) (.inl rfl) (by omega)
  rw [Nat.zero_mul, Nat.zero_add] at hlow hhigh
  linarith

/-! ### Powers of ten next to a magnitude -/

/-- A number between two that round to one magnitude rounds to it. -/
theorem nearest_eq_of_mem (hf : 0 < f.fractionBits) {m : Nat} {r s t : Rat} (hrs : r ≤ s)
    (hst : s ≤ t) (hr : f.nearest r = m) (ht : f.nearest t = m) : f.nearest s = m :=
  Nat.le_antisymm (ht ▸ nearest_mono hf hst) (hr ▸ nearest_mono hf hrs)

/-- A unit no wider than the gap makes many digits. -/
theorem stride_lt_of_unit_le_gap {n m : Nat} (hnormal : f.stride ≤ 2 * m) {u : Rat}
    (hu : u ≤ f.value (m + 1) - f.value m) (hm : f.value m < 10 ^ n * u) :
    f.stride < 2 * 10 ^ n := by
  have hgap : 0 < f.value (m + 1) - f.value m :=
    sub_pos.mpr (f.value_strictMono (Nat.lt_succ_self m))
  have hlarge := stride_mul_gap_le hnormal
  have hlt : (f.stride : Rat) < 2 * 10 ^ n := by
    refine lt_of_mul_lt_mul_right ?_ hgap.le
    calc f.stride * (f.value (m + 1) - f.value m) ≤ 2 * f.value m := hlarge
      _ < 2 * (10 ^ n * u) := by linarith
      _ ≤ 2 * 10 ^ n * (f.value (m + 1) - f.value m) := by
        rw [← mul_assoc]
        exact mul_le_mul_of_nonneg_left hu (by positivity)
  exact_mod_cast hlt

section

/- No count of digits is about that of the significands: as soon as a unit is no wider than a gap it
is less than half as wide. -/
variable (hf : 0 < f.fractionBits)
  (hgrid : ∀ n, f.stride < 2 * 10 ^ n → 2 * f.stride + 2 < 10 ^ n)
include hf hgrid

/-- A decimal next to a magnitude, below it, reads back if a power of ten above does and is no
farther: there are many digits then. -/
theorem nearest_below_of_power_above {n m : Nat} (hm : m < f.infinity)
    (hnormal : f.stride ≤ 2 * m) {d p u : Rat} (hp : p = 10 ^ n * u) (hd : d ≤ f.value m)
    (hmp : f.value m < p) (hstep : u ≤ p - d) (hcloser : f.value m - d ≤ p - f.value m)
    (hhalf : 2 * (f.value m - d) ≤ u) (hmid : p ≤ f.middle m) : f.nearest d = m := by
  have hs : (0 : Rat) < f.stride := by exact_mod_cast f.stride_pos
  have hgap : 2 * (p - f.value m) ≤ f.value (m + 1) - f.value m := by
    unfold middle at hmid
    linarith
  have hmany : (2 * f.stride + 2 : Rat) < 10 ^ n := by
    exact_mod_cast hgrid n (stride_lt_of_unit_le_gap hnormal (by linarith) (hp ▸ hmp))
  have hlarge := stride_mul_gap_le hnormal
  set x := f.value m with hx
  have hx0 : 0 < x := by
    have := mul_pos hs (show 0 < f.value (m + 1) - x by linarith)
    linarith
  have hpower : f.stride * p ≤ (f.stride + 1) * x := by
    have := mul_le_mul_of_nonneg_left hgap hs.le
    linarith
  refine nearest_eq_of_close hf hm ?_
  have hpow : (2 : Rat) ^ (f.fractionBits + 2) = 4 * f.stride := by
    rw [stride_eq, pow_add]; push_cast; ring
  rw [hpow, abs_of_nonpos (by linarith), ← hx]
  refine lt_of_mul_lt_mul_left ?_ (show (0 : Rat) ≤ 10 ^ n by positivity)
  calc 10 ^ n * (4 * f.stride * -(d - x)) = 2 * f.stride * (10 ^ n * (2 * (x - d))) := by ring
    _ ≤ 2 * f.stride * (10 ^ n * u) := by gcongr
    _ = 2 * (f.stride * p) := by rw [hp]; ring
    _ ≤ 2 * ((f.stride + 1) * x) := by linarith
    _ = (2 * f.stride + 2) * x := by ring
    _ < 10 ^ n * x := mul_lt_mul_of_pos_right hmany hx0

/-- Rounded to the decimals below the power of ten that ends its decade, and that rounds to it, a
magnitude reads back. -/
theorem nearest_ofRat_of_power_above {n m : Nat} (hn : 0 < n) (hm0 : 0 < m) (hm : m < f.infinity)
    (hpower : f.nearest ((10 : Rat) ^ (decimalLog (f.value m) + 1)) = m) :
    f.nearest (Decimal.ofRat n (f.value m)).value = m := by
  have hx := f.value_pos hm0
  have hlt := lt_ten_zpow_decimalLog hx
  have hmid : (10 : Rat) ^ (decimalLog (f.value m) + 1) ≤ f.middle m := by
    have h := le_middle_nearest hf (hpower ▸ hm)
    rwa [hpower] at h
  have hclose := Decimal.abs_sub_ofRat_le_ten_zpow hn hx (j := decimalLog (f.value m) + 1) (by omega)
  have hend := Decimal.ofRat_le_ten_zpow hn hx
  have hunits := Decimal.ten_zpow_eq_pow_mul_unit n (f.value m)
  have hstep := Decimal.unit_le_sub_ofRat (n := n) (x := f.value m)
  have hhalf := Decimal.two_mul_abs_sub_ofRat_le n hx
  set p := (10 : Rat) ^ (decimalLog (f.value m) + 1) with hp
  set d := (Decimal.ofRat n (f.value m)).value with hd
  rcases le_or_gt (f.value m) d with hge | hdx
  · exact nearest_eq_of_mem hf hge hend (nearest_value hf hm) hpower
  rw [abs_of_pos (by linarith)] at hhalf
  rw [abs_of_pos (by linarith), abs_of_neg (by linarith)] at hclose
  rcases Nat.lt_or_ge m f.stride with hsub | hnormal
  · obtain ⟨a, rfl⟩ : ∃ a, m = a + 1 := ⟨m - 1, by omega⟩
    exact nearest_of_reflected_below hf (gap_eq_of_lt_stride hsub).le hm hpower hdx.le (by linarith)
  · exact nearest_below_of_power_above hf hgrid hm (by omega) hunits hdx.le hlt
      (hstep (hdx.trans hlt)) (by linarith) hhalf hmid

/-- **A power of ten that rounds to a magnitude keeps it in place.** Rounded to significant digits
and back, the magnitude stays. -/
theorem nearest_ofRat_of_ten_zpow {n m : Nat} (hn : 0 < n) (hm0 : 0 < m) (hm : m < f.infinity)
    {j : Int} (hj : f.nearest ((10 : Rat) ^ j) = m) :
    f.nearest (Decimal.ofRat n (f.value m)).value = m := by
  have hx := f.value_pos hm0
  have hstay := nearest_value hf hm
  rcases le_or_gt ((10 : Rat) ^ j) (f.value m) with hle | hgt
  · -- The leading power of the magnitude lies between, and rounds to it as well.
    have hlead := ten_zpow_decimalLog_le hx
    have hpower : f.nearest ((10 : Rat) ^ decimalLog (f.value m)) = m :=
      nearest_eq_of_mem hf (ten_zpow_le (le_decimalLog hx hle)) hlead hj hstay
    have hclose := Decimal.abs_sub_ofRat_le_ten_zpow hn hx (j := decimalLog (f.value m)) le_rfl
    rcases le_or_gt (Decimal.ofRat n (f.value m)).value (f.value m) with hdx | hxd
    · exact nearest_eq_of_mem hf (Decimal.ten_zpow_le_ofRat hn hx) hdx hpower hstay
    · rw [abs_of_neg (by linarith), abs_of_nonneg (by linarith)] at hclose
      exact nearest_of_reflected_above hf hm0 hm hpower hxd.le (by linarith)
  · -- The end of its decade does.
    have hend : (10 : Rat) ^ (decimalLog (f.value m) + 1) ≤ (10 : Rat) ^ j :=
      ten_zpow_le (decimalLog_lt hx hgt)
    exact nearest_ofRat_of_power_above hf hgrid hn hm0 hm
      (nearest_eq_of_mem hf (lt_ten_zpow_decimalLog hx).le hend hstay hj)

/-- **Rounding to significant digits and back is idempotent.** -/
theorem nearest_ofRat_nearest_ofRat {n m w : Nat} (hn : 0 < n) (hm0 : 0 < m) (hm : m < f.infinity)
    (hround : f.nearest (Decimal.ofRat n (f.value m)).value = w) (hw0 : 0 < w)
    (hw : w < f.infinity) : f.nearest (Decimal.ofRat n (f.value w)).value = w := by
  have hx := f.value_pos hm0
  have hy := f.value_pos hw0
  have hstay := nearest_value hf hw
  rcases lt_trichotomy (decimalLog (f.value m)) (decimalLog (f.value w)) with hlt | heq | hgt
  · have hpower : (10 : Rat) ^ (decimalLog (f.value m) + 1) ≤ f.value w :=
      (ten_zpow_le (by omega)).trans (ten_zpow_decimalLog_le hy)
    exact nearest_ofRat_of_ten_zpow hf hgrid hn hw0 hw
      (nearest_eq_of_mem hf (Decimal.ofRat_le_ten_zpow hn hx) hpower hround hstay)
  · have hclosest := abs_sub_nearest_le hf (Decimal.ofRat n (f.value m)).value hm.le
    rw [hround, abs_sub_comm _ (f.value w), abs_sub_comm _ (f.value m)] at hclosest
    have hsame := (Decimal.isRounding_ofRat hn hx).of_closer hx hy heq hclosest
    rwa [(Decimal.isRounding_ofRat hn hy).unique hsame]
  · have hpower : f.value w ≤ (10 : Rat) ^ decimalLog (f.value m) :=
      (lt_ten_zpow_decimalLog hy).le.trans (ten_zpow_le (by omega))
    exact nearest_ofRat_of_ten_zpow hf hgrid hn hw0 hw
      (nearest_eq_of_mem hf hpower (Decimal.ten_zpow_le_ofRat hn hx) hstay hround)

end

end BinaryFormat

/-- Under a fixed precision the rounded ordinate is written in the shortest way. -/
theorem Precision.text_fixed_eq {v : Ordinate} (hv : v.isFinite = true) {n : Nat} (hn : 1 ≤ n)
    {digits : UInt32} (hdigits : digits.toNat = n) :
    (fixed digits).text v = shortestText (v.roundDigits n) := by
  have hmax : (fixed digits).maxDigits = n := by
    rw [← hdigits]
    exact Nat.max_eq_left (hdigits ▸ hn)
  rw [text_of_isFinite hv, finiteText, hmax]

namespace Ordinate

/-- Fifteen digits are at most half as many as the significands of double precision, and sixteen
more than twice as many. -/
theorem two_mul_stride_lt_pow {n : Nat} (h : format.stride < 2 * 10 ^ n) :
    2 * format.stride + 2 < 10 ^ n := by
  have hn : 16 ≤ n := by
    by_contra hlt
    have hpow : 10 ^ n ≤ 10 ^ 15 := Nat.pow_le_pow_right (by norm_num) (by omega)
    have hstride : 2 * 10 ^ 15 ≤ format.stride := by decide
    omega
  calc 2 * format.stride + 2 < 10 ^ 16 := by decide
    _ ≤ 10 ^ n := Nat.pow_le_pow_right (by norm_num) hn

theorem roundDigits_of_zero {v : Ordinate} (h : v.magnitude = 0) (n : Nat) :
    v.roundDigits n = v := by
  simp [roundDigits, h]

theorem roundDigits_of_enough {n : Nat} (h : 17 ≤ n) (v : Ordinate) : v.roundDigits n = v := by
  simp [roundDigits, show BinaryFormat.enoughDigits ≤ n from h]

/-- An ordinate that was rounded to significant digits stays where it is. -/
theorem roundDigits_roundDigits {v : Ordinate} (hv : v.isFinite = true) {n : Nat} (hn : 1 ≤ n)
    (hw : (v.roundDigits n).isFinite = true) :
    (v.roundDigits n).roundDigits n = v.roundDigits n := by
  rcases Nat.lt_or_ge n 17 with hfew | hmany
  · rcases Nat.eq_zero_or_pos v.magnitude with hzero | hpos
    · rw [roundDigits_of_zero hzero, roundDigits_of_zero hzero]
    have hround := Precision.roundDigits_eq hfew hpos
    set m := format.nearest (Decimal.ofRat n (format.value v.magnitude)).value with hm
    have hmag : (v.roundDigits n).magnitude = m := by
      rw [hround, magnitude_ofMagnitude (nearest_lt_signWeight _)]
    have hneg : (v.roundDigits n).negative = v.negative := by
      rw [hround, negative_ofMagnitude (nearest_lt_signWeight _)]
    rcases Nat.eq_zero_or_pos (v.roundDigits n).magnitude with hzero | hpos'
    · exact roundDigits_of_zero hzero n
    · have hfinite := magnitude_lt_infinity hw
      have htwice := BinaryFormat.nearest_ofRat_nearest_ofRat (by decide)
        (fun _ => two_mul_stride_lt_pow) hn hpos (magnitude_lt_infinity hv) (hm ▸ hmag.symm)
        hpos' hfinite
      rw [Precision.roundDigits_eq hfew hpos', htwice, ofMagnitude_self]
  · rw [roundDigits_of_enough hmany, roundDigits_of_enough hmany]

/-- **Rounding to significant digits is idempotent**, for every count of digits and every finite
ordinate that does not round to infinity; so the fixed text of the ordinate that a fixed text reads
as is that text. -/
theorem roundDigits_idempotent {v : Ordinate} (hv : v.isFinite = true) {n : Nat} (hn : 1 ≤ n)
    (hw : (v.roundDigits n).isFinite = true) :
    (v.roundDigits n).roundDigits n = v.roundDigits n ∧
      ∀ digits : UInt32, digits.toNat = n →
        ∃ w, ofText? ((Precision.fixed digits).text v) = some w ∧
          (Precision.fixed digits).text w = (Precision.fixed digits).text v := by
  have htwice := roundDigits_roundDigits hv hn hw
  refine ⟨htwice, fun digits hdigits => ⟨v.roundDigits n, ?_, ?_⟩⟩
  · rw [Precision.text_fixed_eq hv hn hdigits, ofText?_shortestText hw]
  · rw [Precision.text_fixed_eq hv hn hdigits, Precision.text_fixed_eq hw hn hdigits, htwice]

/-- The third magnitude is rounded up to a power of ten, which rounds to the second, and the second
is rounded to that power again. -/
theorem roundDigits_idempotent_subnormal :
    let v : Ordinate := ⟨3⟩
    v.roundDigits 1 = ⟨2⟩ ∧ (v.roundDigits 1).roundDigits 1 = v.roundDigits 1 ∧
      ∃ w, ofText? ((Precision.fixed 1).text v) = some w ∧
        (Precision.fixed 1).text w = (Precision.fixed 1).text v := by
  intro v
  have h := roundDigits_idempotent (v := v) (n := 1) (by decide) le_rfl (by decide +kernel)
  exact ⟨by decide +kernel, h.1, h.2 1 rfl⟩

end Ordinate

end LatLonText
