/-
# Leading powers and rounding, as laws

The power that a positive number starts with is its integer logarithm
(`decimalLog_eq_log`, `binaryLog_eq_log`), so what is known of logarithms holds
of it. Of rounding one law says everything: which numbers round to `n` or less
(`roundHalfEven_le_iff`). That it keeps order and ends on a neighbour follows.

Key theorems: `floorLog_eq_log`, `roundHalfEven_le_iff`.
-/
import LatLonText.Rounding
import Mathlib.Data.Int.Log
import Mathlib.Data.Rat.Floor
import Mathlib.Tactic.FieldSimp
import Mathlib.Tactic.Linarith
import Mathlib.Tactic.NormNum
import Mathlib.Tactic.Positivity
import Mathlib.Tactic.Ring

namespace LatLonText

/-! ### Leading powers -/

theorem decimalLogWithin_eq_log : ∀ limit n : Nat, n < 10 ^ (limit + 1) →
    decimalLogWithin limit n = Nat.log 10 n
  | 0, n, h => (Nat.log_of_lt (by simpa using h)).symm
  | limit + 1, n, h => by
    rw [decimalLogWithin]
    split
    · rename_i hn
      exact (Nat.log_of_lt hn).symm
    · rename_i hn
      have hdiv : n / 10 < 10 ^ (limit + 1) := by
        rw [Nat.div_lt_iff_lt_mul (by norm_num)]
        rwa [pow_succ] at h
      rw [decimalLogWithin_eq_log limit _ hdiv]
      exact (Nat.log_of_one_lt_of_le (by norm_num) (by omega)).symm

/-- A number has at most as many decimal digits as binary ones. -/
theorem decimalLogNat_eq_log (n : Nat) : decimalLogNat n = Nat.log 10 n := by
  refine decimalLogWithin_eq_log _ _ ?_
  calc n < 2 ^ (n.log2 + 1) := Nat.lt_log2_self
    _ ≤ 10 ^ (n.log2 + 1) := Nat.pow_le_pow_left (by norm_num) _

/-- A quotient is within a power of the quotient of the powers that its two parts start with. -/
theorem quotient_bounds {base r n d : Rat} (hbase : 0 < base) (hr : 0 < r) (hrd : r * d = n)
    {a b : Nat} (ha : base ^ a ≤ n) (ha' : n < base ^ (a + 1)) (hb : base ^ b ≤ d)
    (hb' : d < base ^ (b + 1)) :
    base ^ ((a : Int) - b - 1) ≤ r ∧ r < base ^ ((a : Int) - b + 1) := by
  constructor
  · have hsplit : base ^ ((a : Int) - b - 1) * base ^ (b + 1) = base ^ a := by
      rw [← zpow_natCast, ← zpow_natCast, ← zpow_add₀ hbase.ne']; congr 1; push_cast; ring
    refine le_of_mul_le_mul_right ?_ (pow_pos hbase (b + 1))
    rw [hsplit]
    calc base ^ a ≤ r * d := hrd ▸ ha
      _ ≤ r * base ^ (b + 1) := mul_le_mul_of_nonneg_left hb'.le hr.le
  · have hsplit : base ^ ((a : Int) - b + 1) * base ^ b = base ^ (a + 1) := by
      rw [← zpow_natCast, ← zpow_natCast, ← zpow_add₀ hbase.ne']; congr 1; push_cast; ring
    refine lt_of_mul_lt_mul_right ?_ (pow_pos hbase b).le
    rw [hsplit]
    calc r * base ^ b ≤ r * d := mul_le_mul_of_nonneg_left hb hr.le
      _ < base ^ (a + 1) := hrd ▸ ha'

/-- Numerator and denominator leave two neighbouring exponents open, and the comparison decides. -/
theorem floorLog_eq_log {base : Nat} (hb : 1 < base) {r : Rat} (hr : 0 < r) :
    floorLog base (Nat.log base) r = Int.log base r := by
  have hbase : (0 : Rat) < base := by exact_mod_cast (by omega : 0 < base)
  obtain ⟨n, hn⟩ : ∃ n : Nat, r.num = n := ⟨r.num.toNat, by have := Rat.num_pos.mpr hr; omega⟩
  have hn0 : n ≠ 0 := by have := Rat.num_pos.mpr hr; omega
  have hrn : r * r.den = n := by rw [Rat.mul_den_eq_num, hn]; simp
  obtain ⟨hlow, hhigh⟩ := quotient_bounds hbase hr hrn
    (by exact_mod_cast Nat.pow_log_le_self base hn0)
    (by exact_mod_cast Nat.lt_pow_succ_log_self hb n)
    (by exact_mod_cast Nat.pow_log_le_self base r.den_nz)
    (by exact_mod_cast Nat.lt_pow_succ_log_self hb r.den)
  have hle := (Int.zpow_le_iff_le_log hb hr).mp hlow
  have hlt := (Int.lt_zpow_iff_log_lt hb hr).mp hhigh
  simp only [floorLog, hn, Int.toNat_natCast]
  split
  · rename_i h
    have := (Int.zpow_le_iff_le_log hb hr).mp h
    omega
  · rename_i h
    have := (Int.lt_zpow_iff_log_lt hb hr).mp (lt_of_not_ge h)
    omega

theorem binaryLog_eq_log {r : Rat} (hr : 0 < r) : binaryLog r = Int.log 2 r := by
  rw [binaryLog, funext fun n => Nat.log2_eq_log_two (n := n)]
  exact floorLog_eq_log (by norm_num) hr

theorem decimalLog_eq_log {r : Rat} (hr : 0 < r) : decimalLog r = Int.log 10 r := by
  rw [decimalLog, funext decimalLogNat_eq_log]
  exact floorLog_eq_log (by norm_num) hr

theorem two_zpow_binaryLog_le {r : Rat} (hr : 0 < r) : (2 : Rat) ^ binaryLog r ≤ r := by
  rw [binaryLog_eq_log hr]
  exact_mod_cast Int.zpow_log_le_self (b := 2) (by norm_num) hr

theorem lt_two_zpow_binaryLog {r : Rat} (hr : 0 < r) : r < (2 : Rat) ^ (binaryLog r + 1) := by
  rw [binaryLog_eq_log hr]
  exact_mod_cast Int.lt_zpow_succ_log_self (b := 2) (by norm_num) r

theorem ten_zpow_decimalLog_le {r : Rat} (hr : 0 < r) : (10 : Rat) ^ decimalLog r ≤ r := by
  rw [decimalLog_eq_log hr]
  exact_mod_cast Int.zpow_log_le_self (b := 10) (by norm_num) hr

theorem lt_ten_zpow_decimalLog {r : Rat} (hr : 0 < r) : r < (10 : Rat) ^ (decimalLog r + 1) := by
  rw [decimalLog_eq_log hr]
  exact_mod_cast Int.lt_zpow_succ_log_self (b := 10) (by norm_num) r

/-! ### Rounding -/

theorem floor_toNat_le {r : Rat} (h : 0 ≤ r) : (r.floor.toNat : Rat) ≤ r := by
  have hf : 0 ≤ r.floor := Int.floor_nonneg.mpr h
  calc (r.floor.toNat : Rat) = (r.floor : Rat) := by exact_mod_cast Int.toNat_of_nonneg hf
    _ ≤ r := Rat.floor_le r

theorem lt_floor_toNat_add_one (r : Rat) : r < (r.floor.toNat : Rat) + 1 := by
  have hle : (r.floor : Rat) ≤ (r.floor.toNat : Rat) := by exact_mod_cast Int.self_le_toNat r.floor
  have hlt : r < (r.floor : Rat) + 1 := Int.lt_floor_add_one r
  linarith

/-- **What rounding does.** Up to `n` round the numbers below the middle to the next one, and the
middle itself if `n` is even. -/
theorem roundHalfEven_le_iff {r : Rat} (h : 0 ≤ r) (n : Nat) :
    roundHalfEven r ≤ n ↔ r < n + 1 / 2 ∨ (r = n + 1 / 2 ∧ n % 2 = 0) := by
  have hlow := floor_toNat_le h
  have hhigh := lt_floor_toNat_add_one r
  unfold roundHalfEven
  generalize r.floor.toNat = b at hlow hhigh
  have hpos : b + 1 ≤ n → r < n + 1 / 2 := fun hb => by
    have : ((b + 1 : Nat) : Rat) ≤ n := by exact_mod_cast hb
    push_cast at this; linarith
  have hneg : n + 1 ≤ b → ¬ (r < n + 1 / 2 ∨ (r = n + 1 / 2 ∧ n % 2 = 0)) := fun hb hr => by
    have : ((n + 1 : Nat) : Rat) ≤ b := by exact_mod_cast hb
    push_cast at this
    rcases hr with hr | ⟨hr, -⟩ <;> linarith
  -- Away from the neighbours of `n` the two bounds decide; at `n` the branch taken does.
  rcases Nat.lt_trichotomy b n with hb | rfl | hb
  · have : r < n + 1 / 2 := hpos hb
    simp only [this, true_or, iff_true]
    split_ifs <;> omega
  · simp only
    split_ifs with h1 h2 h3
    · exact ⟨fun _ => .inl (by linarith), fun _ => le_refl _⟩
    · refine ⟨fun hle => by omega, ?_⟩
      rintro (hr | ⟨hr, -⟩) <;> linarith
    · exact ⟨fun _ => .inr ⟨by linarith, h3⟩, fun _ => le_refl _⟩
    · refine ⟨fun hle => by omega, ?_⟩
      rintro (hr | ⟨-, hr⟩)
      · linarith
      · exact absurd hr h3
  · simp only [hneg hb, iff_false, Nat.not_le]
    split_ifs <;> omega

end LatLonText
