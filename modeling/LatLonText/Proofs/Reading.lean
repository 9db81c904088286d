/-
# Reading ordinates back from text

A decimal is rounded to a format without forming a power that is out of range:
where its leading digit stands beyond the format, the answer is given at once.
These answers are the ones that rounding gives (`Decimal.magnitude_eq_nearest`),
since ten is more than eight, so a literal is read as the nearest ordinate. A
decimal in positional notation is read back as the ordinate nearest to its value
(`Ordinate.ofText?_positional`), and the shortest text of a finite ordinate as
that ordinate, the sign of zero included (`Ordinate.ofText?_shortestText`).

Key definitions: `Ordinate.ofText?`.
Key theorems: `Decimal.magnitude_eq_nearest`, `Ordinate.ofText?_positional`,
`Ordinate.ofText?_shortestText`.
-/
import LatLonText.Proofs.Closest
import LatLonText.Proofs.FixedText

namespace LatLonText

/-! ### Decimals far out of range -/

theorem two_zpow_three_mul_le {e : Int} (h : 0 ≤ e) : (2 : Rat) ^ (3 * e) ≤ (10 : Rat) ^ e := by
  rw [zpow_mul]
  exact zpow_le_zpow_left₀ h (by norm_num) (by norm_num)

theorem ten_zpow_le_two_zpow {e : Int} (h : e ≤ 0) : (10 : Rat) ^ e ≤ (2 : Rat) ^ (3 * e) := by
  have hpos : (0 : Rat) < (2 : Rat) ^ (3 * -e) := zpow_pos (by norm_num) _
  have hinv := inv_anti₀ hpos (two_zpow_three_mul_le (show 0 ≤ -e by omega))
  rwa [← zpow_neg, ← zpow_neg, neg_neg, mul_neg, neg_neg] at hinv

/-- The power of ten that the first digit of a decimal counts. -/
theorem Decimal.leading_bounds {d : Decimal} (h : d.digits ≠ 0) :
    (10 : Rat) ^ ((decimalLogNat d.digits : Int) + d.exponent) ≤ d.value ∧
      d.value < (10 : Rat) ^ ((decimalLogNat d.digits : Int) + d.exponent + 1) := by
  have hunit := ten_zpow_pos d.exponent
  have hlow : (10 : Rat) ^ Nat.log 10 d.digits ≤ d.digits := by
    exact_mod_cast Nat.pow_log_le_self 10 h
  have hhigh : (d.digits : Rat) < 10 ^ (Nat.log 10 d.digits + 1) := by
    exact_mod_cast Nat.lt_pow_succ_log_self (by norm_num) d.digits
  rw [decimalLogNat_eq_log]
  constructor
  · rw [← ten_zpow_mul, zpow_natCast]
    exact mul_le_mul_of_nonneg_right hlow hunit.le
  · rw [show (Nat.log 10 d.digits : Int) + d.exponent + 1 =
        ((Nat.log 10 d.digits + 1 : Nat) : Int) + d.exponent by omega,
      ← ten_zpow_mul, zpow_natCast]
    exact mul_lt_mul_of_pos_right hhigh hunit

namespace BinaryFormat

variable {f : BinaryFormat}

/-- Infinity stands for the power of two above all finite magnitudes. -/
theorem value_infinity (hfinite : f.stride ≤ f.infinity) :
    f.value f.infinity = (2 : Rat) ^ f.topExponent := by
  have hmod : f.infinity % f.stride = 0 := by
    unfold infinity
    exact Nat.mul_mod_left _ _
  rw [value, significand, if_neg (by omega), hmod, Nat.add_zero, stride_eq, Nat.cast_pow,
    ← zpow_natCast, Nat.cast_ofNat, ← zpow_add₀ (by norm_num), topExponent, add_comm]

/-- What reaches infinity rounds to it. -/
theorem nearest_eq_infinity (hf : 0 < f.fractionBits) {r : Rat}
    (hr : f.value f.infinity ≤ r) : f.nearest r = f.infinity := by
  refine Nat.le_antisymm (f.nearest_le_infinity r) ?_
  by_contra hlt
  have hmid := le_middle_nearest hf (not_le.mp hlt)
  have hnext := f.middle_lt_value_succ (f.nearest r)
  have hmono : f.value (f.nearest r + 1) ≤ f.value f.infinity :=
    f.value_strictMono.monotone (by omega)
  linarith

/-- What stays below half the least magnitude rounds to zero. -/
theorem nearest_eq_zero (hf : 0 < f.fractionBits) (hinf : 0 < f.infinity) {r : Rat}
    (hr : r < (2 : Rat) ^ (f.minExponent - 1)) : f.nearest r = 0 := by
  have hmid : f.middle 0 = (2 : Rat) ^ (f.minExponent - 1) := by
    have hs := f.stride_pos
    have h := f.middle_add (k := 0) (j := 0) (.inl rfl) (by omega)
    rw [Nat.zero_mul, Nat.zero_add] at h
    rw [h, zpow_sub_one₀ (by norm_num), Nat.cast_zero, Nat.cast_zero, zero_add, add_zero]
    ring
  have hle := (nearest_le_iff hf hinf r).mpr (.inl (hmid ▸ hr))
  omega

end BinaryFormat

/-- **Decimals are rounded to the nearest magnitude**, also where that is decided by the leading
digit alone. -/
theorem Decimal.magnitude_eq_nearest {f : BinaryFormat} (hf : 0 < f.fractionBits)
    (hfinite : f.stride ≤ f.infinity) (htop : 0 ≤ f.topExponent) (d : Decimal) :
    d.magnitude f = f.nearest d.value := by
  have hstride := f.stride_pos
  unfold magnitude
  split
  · rename_i h
    rw [(value_eq_zero_iff d).mpr h, BinaryFormat.nearest, if_pos le_rfl]
  · rename_i h
    obtain ⟨hlow, hhigh⟩ := leading_bounds h
    simp only
    split_ifs with habove hbelow
    · symm
      refine BinaryFormat.nearest_eq_infinity hf ?_
      rw [BinaryFormat.value_infinity hfinite]
      calc (2 : Rat) ^ f.topExponent
          ≤ (2 : Rat) ^ (3 * ((decimalLogNat d.digits : Int) + d.exponent)) :=
            zpow_le_zpow_right₀ (by norm_num) habove
        _ ≤ (10 : Rat) ^ ((decimalLogNat d.digits : Int) + d.exponent) :=
            two_zpow_three_mul_le (by omega)
        _ ≤ d.value := hlow
    · symm
      have hmin : f.minExponent ≤ 0 := by
        have hpow : 0 < Nat.pow 2 (f.exponentBits - 1) := Nat.pow_pos (by norm_num)
        unfold BinaryFormat.minExponent
        omega
      refine BinaryFormat.nearest_eq_zero hf (by omega) ?_
      calc d.value < (10 : Rat) ^ ((decimalLogNat d.digits : Int) + d.exponent + 1) := hhigh
        _ ≤ (2 : Rat) ^ (3 * ((decimalLogNat d.digits : Int) + d.exponent + 1)) :=
            ten_zpow_le_two_zpow (by omega)
        _ ≤ (2 : Rat) ^ (f.minExponent - 1) := zpow_le_zpow_right₀ (by norm_num) hbelow.le
    · rfl

/-! ### Ordinates from text -/

namespace Ordinate

/-- The ordinate that a text spells: the one nearest to the number literal that the text is. -/
def ofText? (cs : List Char) : Option Ordinate :=
  (Literal.read cs).map ofLiteral

theorem ofLiteral_finite (negative : Bool) (d : Decimal) :
    ofLiteral (.finite negative d) = ofMagnitude negative (format.nearest d.value) := by
  rw [ofLiteral, Decimal.magnitude_eq_nearest (by decide) (by decide) (by decide)]

/-- **Positional text is read as the nearest ordinate.** -/
theorem ofText?_positional (negative : Bool) (d : Decimal) :
    ofText? (Precision.withSign negative d.positional) =
      some (ofMagnitude negative (format.nearest d.value)) := by
  obtain ⟨e, hread, hvalue⟩ := Literal.read_positional negative d
  rw [ofText?, hread, Option.map_some, ofLiteral_finite, hvalue]

theorem magnitude_lt_signWeight (v : Ordinate) : v.magnitude < signWeight :=
  Nat.mod_lt _ (by decide)

/-- An ordinate is made of its sign and its magnitude. -/
theorem ofMagnitude_self (v : Ordinate) : ofMagnitude v.negative v.magnitude = v :=
  eq_of_magnitude_eq (negative_ofMagnitude v.magnitude_lt_signWeight _)
    (magnitude_ofMagnitude v.magnitude_lt_signWeight _)

theorem magnitude_lt_infinity {v : Ordinate} (h : v.isFinite = true) :
    v.magnitude < format.infinity :=
  of_decide_eq_true h

/-- A number as large as an ordinate's rounds to no NaN. -/
theorem nearest_lt_signWeight (r : Rat) : format.nearest r < signWeight :=
  (format.nearest_le_infinity r).trans_lt infinity_lt_signWeight

/-- **The shortest text of a finite ordinate reads back**, bit for bit. -/
theorem ofText?_shortestText {v : Ordinate} (h : v.isFinite = true) :
    ofText? (Precision.shortestText v) = some v := by
  have hm := magnitude_lt_infinity h
  rw [← ofMagnitude_self v, Precision.shortestText_ofMagnitude hm, ofText?_positional,
    BinaryFormat.nearest_value_shortest (by decide) (by decide) hm]

end Ordinate

end LatLonText
