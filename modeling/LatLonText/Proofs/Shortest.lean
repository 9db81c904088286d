/-
# Shortest decimals read back

A point of a decimal grid that is taken for a magnitude rounds to it
(`nearest_value_of_onGrid?`). A grid with enough digits holds such a point for
every finite magnitude (`onGrid?_isSome`): one of the two neighbours is at most
half a unit away, which is too little to round to another magnitude
(`nearest_eq_of_half_unit`). Seventeen digits are enough in any format whose
significands are below `10 ^ 16`, so the search for the shortest decimal never
comes to its end without a find, and what it finds reads back
(`nearest_value_shortest`).

Key theorems: `BinaryFormat.nearest_eq_of_half_unit`, `BinaryFormat.onGrid?_isSome`,
`BinaryFormat.nearest_value_shortest`.
-/
import LatLonText.Decimal.Shortest
import LatLonText.Proofs.Nearest

namespace LatLonText

theorem ten_zpow_pos (e : Int) : (0 : Rat) < (10 : Rat) ^ e := zpow_pos (by norm_num) e

/-- A positive number lies between its neighbours on a decimal grid. -/
theorem Decimal.between_neighbours {v : Rat} (hv : 0 < v) (e : Int) {below : Nat}
    (hbelow : below = (v * (10 : Rat) ^ (-e)).floor.toNat) :
    (Decimal.mk below e).value ≤ v ∧ v < (Decimal.mk (below + 1) e).value := by
  have hu := ten_zpow_pos e
  have hscale : v * (10 : Rat) ^ (-e) * (10 : Rat) ^ e = v := by
    rw [mul_assoc, ← zpow_add₀ (by norm_num)]; simp
  constructor
  · calc (below : Rat) * (10 : Rat) ^ e ≤ v * (10 : Rat) ^ (-e) * (10 : Rat) ^ e := by
          rw [hbelow]
          exact mul_le_mul_of_nonneg_right (floor_toNat_le (mul_pos hv (ten_zpow_pos _)).le) hu.le
      _ = v := hscale
  · calc v = v * (10 : Rat) ^ (-e) * (10 : Rat) ^ e := hscale.symm
      _ < ((below : Rat) + 1) * (10 : Rat) ^ e := by
          rw [hbelow]
          exact mul_lt_mul_of_pos_right (lt_floor_toNat_add_one _) hu
      _ = (Decimal.mk (below + 1) e).value := by simp only [Decimal.value]; push_cast; rfl

/-- One of the neighbours of a number on a decimal grid is at most half a unit away. -/
theorem Decimal.neighbour_close {v : Rat} (hv : 0 < v) (e : Int) {below : Nat}
    (hbelow : below = (v * (10 : Rat) ^ (-e)).floor.toNat) :
    |(Decimal.mk below e).value - v| ≤ (10 : Rat) ^ e / 2 ∨
      |(Decimal.mk (below + 1) e).value - v| ≤ (10 : Rat) ^ e / 2 := by
  obtain ⟨hlow, hhigh⟩ := Decimal.between_neighbours hv e hbelow
  have hstep : (Decimal.mk (below + 1) e).value = (Decimal.mk below e).value + (10 : Rat) ^ e := by
    simp only [Decimal.value]; push_cast; ring
  rw [abs_le, abs_le]
  rcases le_or_gt (v - (Decimal.mk below e).value) ((10 : Rat) ^ e / 2) with h | h
  · exact .inl ⟨by linarith, by linarith⟩
  · exact .inr ⟨by linarith, by linarith⟩

/-- Half a unit is a small part of a number, where the grid has many digits. -/
theorem Decimal.half_unit_lt {bits n : Nat} (hn : 2 ^ (bits + 1) < 10 ^ n) {v : Rat} (hv : 0 < v) :
    2 ^ (bits + 2) * ((10 : Rat) ^ Decimal.unitExponent (n + 1) v / 2) < v := by
  have hpow : (2 : Rat) ^ (bits + 1) < 10 ^ n := by exact_mod_cast hn
  set e := Decimal.unitExponent (n + 1) v with he
  calc 2 ^ (bits + 2) * ((10 : Rat) ^ e / 2) = 2 ^ (bits + 1) * (10 : Rat) ^ e := by
        rw [pow_succ]; ring
    _ < 10 ^ n * (10 : Rat) ^ e := mul_lt_mul_of_pos_right hpow (ten_zpow_pos e)
    _ = (10 : Rat) ^ decimalLog v := by
      rw [← zpow_natCast, ← zpow_add₀ (by norm_num), he, Decimal.unitExponent]
      congr 1; push_cast; ring
    _ ≤ v := ten_zpow_decimalLog_le hv

namespace BinaryFormat

variable {f : BinaryFormat}

theorem nearest_value_of_onGrid? {m n : Nat} {d : Decimal} (h : f.onGrid? m n = some d) :
    f.nearest d.value = m := by
  unfold onGrid? at h
  simp only at h
  split_ifs at h with hlower hboth hupper
  · obtain rfl := Option.some.inj h
    exact hboth.1
  · obtain rfl := Option.some.inj h
    exact hlower
  · obtain rfl := Option.some.inj h
    exact hupper

/-- A neighbour that reads back is found. -/
theorem onGrid?_isSome_of_neighbour {m n below : Nat} {e : Int}
    (he : e = Decimal.unitExponent n (f.value m))
    (hbelow : below = (f.value m * (10 : Rat) ^ (-e)).floor.toNat)
    (h : f.nearest (Decimal.mk below e).value = m ∨
      f.nearest (Decimal.mk (below + 1) e).value = m) : (f.onGrid? m n).isSome := by
  unfold onGrid?
  simp only [← he, ← hbelow]
  rcases h with h | h
  · rw [if_pos h]
    split_ifs <;> rfl
  · rw [if_pos h]
    split_ifs <;> rfl

/-- With digits enough to outnumber the significands, what is at most half a unit away from a
magnitude reads back. -/
theorem nearest_eq_of_half_unit (hf : 0 < f.fractionBits) {m n : Nat} (hm0 : 0 < m)
    (hm : m < f.infinity) (hn : 2 ^ (f.fractionBits + 1) < 10 ^ n) {r : Rat}
    (hr : |r - f.value m| ≤ (10 : Rat) ^ Decimal.unitExponent (n + 1) (f.value m) / 2) :
    f.nearest r = m := by
  have hp : (0 : Rat) ≤ 2 ^ (f.fractionBits + 2) := by positivity
  refine nearest_eq_of_close hf hm ?_
  calc 2 ^ (f.fractionBits + 2) * |r - f.value m|
      ≤ 2 ^ (f.fractionBits + 2) *
          ((10 : Rat) ^ Decimal.unitExponent (n + 1) (f.value m) / 2) :=
        mul_le_mul_of_nonneg_left hr hp
    _ < f.value m := Decimal.half_unit_lt hn (f.value_pos hm0)

/-- So a neighbour on the grid does. -/
theorem onGrid?_isSome (hf : 0 < f.fractionBits) {m n : Nat} (hm0 : 0 < m) (hm : m < f.infinity)
    (hn : 2 ^ (f.fractionBits + 1) < 10 ^ n) : (f.onGrid? m (n + 1)).isSome := by
  have hback : ∀ d : Decimal,
      |d.value - f.value m| ≤ (10 : Rat) ^ Decimal.unitExponent (n + 1) (f.value m) / 2 →
        f.nearest d.value = m :=
    fun _ => nearest_eq_of_half_unit hf hm0 hm hn
  exact onGrid?_isSome_of_neighbour rfl rfl
    ((Decimal.neighbour_close (f.value_pos hm0) _ rfl).imp (hback _) (hback _))

@[simp]
theorem value_shortest_zero (f : BinaryFormat) : (f.shortest 0).value = 0 := by
  simp [shortest, Decimal.value]

/-- **Shortest decimals read back**, in any format that seventeen digits tell apart. -/
theorem nearest_value_shortest (hf : 0 < f.fractionBits) (hdigits : 2 ^ (f.fractionBits + 1) < 10 ^ 16)
    {m : Nat} (hm : m < f.infinity) : f.nearest (f.shortest m).value = m := by
  rcases Nat.eq_zero_or_pos m with rfl | hm0
  · simp [nearest]
  have hsome : ((List.range' 1 enoughDigits).findSome? (f.onGrid? m)).isSome := by
    rw [List.findSome?_isSome_iff]
    exact ⟨17, by decide, onGrid?_isSome hf hm0 hm hdigits⟩
  obtain ⟨d, hd⟩ := Option.isSome_iff_exists.mp hsome
  obtain ⟨n, -, hn⟩ := List.exists_of_findSome?_eq_some hd
  rw [shortest, if_neg (by omega), hd]
  exact nearest_value_of_onGrid? hn

end BinaryFormat

end LatLonText
