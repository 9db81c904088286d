/-
# Few digits survive a binary format

A number of few digits is rounded to a magnitude and the magnitude is written as
its shortest decimal. That decimal has no more digits than the number had
(`hasDigits_shortest`), for if any number of `n` digits rounds to a magnitude,
the grid of `n` digits has a find (`onGrid?_isSome_of_hasDigits`). Magnitudes
that are not too small lie closer together than numbers of few digits do, so two
of these never round to one magnitude (`eq_of_nearest_eq`). So the shortest
decimal is the number itself (`value_shortest_nearest`).

Where the exponent changes, the magnitudes below lie twice as close as those
above; the gap above is the wider one and is what has to be small
(`gap_below_le`).

Key theorems: `BinaryFormat.hasDigits_shortest`, `BinaryFormat.eq_of_nearest_eq`,
`BinaryFormat.value_shortest_nearest`.
-/
import LatLonText.Proofs.Digits

namespace LatLonText.BinaryFormat

variable {f : BinaryFormat}

/-! ### The shortest decimal is shortest -/

/-- What a grid finds has the digits of the grid. -/
theorem hasDigits_of_onGrid? {m n : Nat} (hn : 0 < n) (hm : 0 < m) {d : Decimal}
    (h : f.onGrid? m n = some d) : HasDigits n d.value := by
  have hv := f.value_pos hm
  obtain ⟨hone, hlt⟩ := Decimal.scaled_bounds hn hv
  have hbelow : (f.value m * (10 : Rat) ^ (-Decimal.unitExponent n (f.value m))).floor.toNat + 1 ≤
      10 ^ n := by
    have hfloor := floor_toNat_le (zero_le_one.trans hone)
    exact_mod_cast hfloor.trans_lt hlt
  refine hasDigits_of_le hn ?_
  unfold onGrid? at h
  simp only at h
  split_ifs at h <;> obtain rfl := Option.some.inj h
  · exact hbelow
  · exact (Nat.le_succ _).trans hbelow
  · exact hbelow

/-- Any point of a grid that rounds to a magnitude shows that a neighbour on its side does. -/
theorem onGrid?_isSome_of_multiple (hf : 0 < f.fractionBits) {m n k : Nat} (hm0 : 0 < m)
    (hm : m < f.infinity)
    (hk : f.nearest (k * (10 : Rat) ^ Decimal.unitExponent n (f.value m)) = m) :
    (f.onGrid? m n).isSome := by
  have hv := f.value_pos hm0
  set v := f.value m with hvdef
  set e := Decimal.unitExponent n v with he
  have hunit := ten_zpow_pos e
  set below := (v * (10 : Rat) ^ (-e)).floor.toNat with hbelow
  obtain ⟨hlow, hhigh⟩ := Decimal.between_neighbours hv e hbelow
  have hstay : f.nearest v = m := nearest_value hf hm
  have hmul : ∀ {a b : Nat}, a ≤ b → (a : Rat) * (10 : Rat) ^ e ≤ b * (10 : Rat) ^ e := fun hab =>
    mul_le_mul_of_nonneg_right (by exact_mod_cast hab) hunit.le
  refine onGrid?_isSome_of_neighbour he hbelow ?_
  rcases Nat.lt_or_ge below k with hlt | hge
  · right
    refine Nat.le_antisymm ?_ (hstay ▸ nearest_mono hf hhigh.le)
    rw [← hk]
    exact nearest_mono hf (hmul hlt)
  · left
    refine Nat.le_antisymm (hstay ▸ nearest_mono hf hlow) ?_
    rw [← hk]
    exact nearest_mono hf (hmul hge)

/-- If a number of `n` digits rounds to a magnitude, the grid of `n` digits has a find. -/
theorem onGrid?_isSome_of_hasDigits (hf : 0 < f.fractionBits) {n : Nat} {q : Rat}
    (hq : HasDigits n q) (hm0 : 0 < f.nearest q) (hm : f.nearest q < f.infinity) :
    (f.onGrid? (f.nearest q) n).isSome := by
  have hq0 := pos_of_nearest_pos hm0
  have hv := f.value_pos hm0
  set m := f.nearest q with hmdef
  have hfind : ∀ {r : Rat}, HasDigits n r → 0 < r → decimalLog (f.value m) ≤ decimalLog r →
      f.nearest r = m → (f.onGrid? m n).isSome := by
    intro r hr hr0 hlog hround
    have hunit : Decimal.unitExponent n (f.value m) ≤ Decimal.unitExponent n r := by
      unfold Decimal.unitExponent
      omega
    obtain ⟨k, hk⟩ := hr.exists_multiple hr0 hunit
    exact onGrid?_isSome_of_multiple hf hm0 hm (hk ▸ hround)
  rcases le_or_gt (decimalLog (f.value m)) (decimalLog q) with hle | hgt
  · exact hfind hq hq0 hle hmdef.symm
  · -- The magnitude starts with a higher power of ten; that power lies between and rounds to it.
    have hpow := ten_zpow_decimalLog_le hv
    have hbetween : q ≤ (10 : Rat) ^ decimalLog (f.value m) :=
      (lt_ten_zpow_decimalLog hq0).le.trans (ten_zpow_le (by omega))
    have hround : f.nearest ((10 : Rat) ^ decimalLog (f.value m)) = m := by
      refine Nat.le_antisymm ?_ (hmdef ▸ nearest_mono hf hbetween)
      exact (nearest_mono hf hpow).trans (nearest_value hf hm).le
    have hten := ten_zpow_pos (decimalLog (f.value m))
    exact hfind (hasDigits_ten_zpow (hq.pos hq0) _) hten (le_decimalLog hten le_rfl) hround

/-- **The shortest decimal is shortest**: it has no more digits than any number that rounds to the
magnitude. -/
theorem hasDigits_shortest (hf : 0 < f.fractionBits) {n : Nat} (hn : n ≤ enoughDigits) {q : Rat}
    (hq : HasDigits n q) (hm0 : 0 < f.nearest q) (hm : f.nearest q < f.infinity) :
    HasDigits n (f.shortest (f.nearest q)).value := by
  have hn0 := hq.pos (pos_of_nearest_pos hm0)
  have hfind := onGrid?_isSome_of_hasDigits hf hq hm0 hm
  set m := f.nearest q
  have hmem : n ∈ List.range' 1 enoughDigits := by
    rw [List.mem_range'_1]
    omega
  have hsome : ((List.range' 1 enoughDigits).findSome? (f.onGrid? m)).isSome :=
    List.findSome?_isSome_iff.mpr ⟨n, hmem, hfind⟩
  obtain ⟨d, hd⟩ := Option.isSome_iff_exists.mp hsome
  rw [shortest, if_neg (by omega), hd, Option.getD_some]
  obtain ⟨before, k, after, hrange, hk, hnone⟩ := List.findSome?_eq_some_iff.mp hd
  have hk0 : 0 < k := by
    have : k ∈ List.range' 1 enoughDigits := by simp [hrange]
    rw [List.mem_range'_1] at this
    omega
  -- Were there more digits than `n`, the grid of `n` digits would have been asked before.
  have hkn : k ≤ n := by
    have hsorted : (List.range' 1 enoughDigits).Pairwise (· < ·) := List.pairwise_lt_range'
    rw [hrange, List.pairwise_append, List.pairwise_cons] at hsorted
    rw [hrange, List.mem_append, List.mem_cons] at hmem
    rcases hmem with hmem | rfl | hmem
    · simp [hnone n hmem] at hfind
    · exact le_rfl
    · exact (hsorted.2.1.1 n hmem).le
  exact (hasDigits_of_onGrid? hk0 hm0 hk).mono hkn

/-! ### Magnitudes lie closer together than numbers of few digits -/

/-- The gap below a magnitude is at most the gap above it. -/
theorem gap_below_le (f : BinaryFormat) (m : Nat) :
    f.value (m + 1) - f.value m ≤ f.value (m + 2) - f.value (m + 1) := by
  obtain ⟨k, j, rfl, hk, hj⟩ := f.exists_binade m
  have hunit := two_zpow_pos (f.minExponent + k)
  have hs := f.stride_pos
  rw [f.value_succ hk hj]
  rcases Nat.lt_or_ge (j + 1) (2 * f.stride) with hlt | hge
  · have habove := f.value_succ (k := k) (j := j + 1) (by omega) hlt
    rw [← Nat.add_assoc, f.value_succ hk hj] at habove
    linarith
  · -- The next magnitude is the first of the next exponent.
    have hnext : k * f.stride + j + 1 = (k + 1) * f.stride + f.stride := by
      rw [Nat.add_assoc, show j + 1 = f.stride + f.stride by omega, Nat.succ_mul, Nat.add_assoc]
    have habove := f.value_succ (k := k + 1) (j := f.stride) (.inr le_rfl) (by omega)
    have hdouble : (2 : Rat) ^ (f.minExponent + ((k + 1 : Nat) : Int)) =
        2 * (2 : Rat) ^ (f.minExponent + k) := by
      rw [Nat.cast_succ, ← add_assoc, zpow_add_one₀ (by norm_num), mul_comm]
    rw [← hnext, hdouble, f.value_succ hk hj] at habove
    linarith

/-- From half the first stride on, a magnitude is at least `stride / 2` of the gap above it. -/
theorem stride_mul_gap_le {m : Nat} (hm : f.stride ≤ 2 * m) :
    f.stride * (f.value (m + 1) - f.value m) ≤ 2 * f.value m := by
  obtain ⟨k, j, rfl, hk, hj⟩ := f.exists_binade m
  have hj2 : (f.stride : Rat) ≤ 2 * j := by
    have : f.stride ≤ 2 * j := by
      rcases hk with rfl | hk
      · omega
      · omega
    exact_mod_cast this
  rw [f.value_succ hk hj, f.value_add hk hj.le, add_sub_cancel_left, ← mul_assoc]
  exact mul_le_mul_of_nonneg_right hj2 (two_zpow_pos _).le

/-- What is at least half the first magnitude with a full significand rounds to at least half its
number. -/
theorem stride_le_two_mul_nearest (hf : 0 < f.fractionBits) (hfinite : f.stride < f.infinity)
    {q : Rat} (hq : f.value f.stride ≤ 2 * q) : f.stride ≤ 2 * f.nearest q := by
  obtain ⟨half, hhalf⟩ : ∃ half, f.stride = half + half :=
    ⟨f.stride / 2, by have := stride_mod_two hf; omega⟩
  have hvalue : f.value f.stride = 2 * f.value half := by
    have hfull := f.value_add (k := 0) (j := f.stride) (.inl rfl) (by omega)
    have hpart := f.value_add (k := 0) (j := half) (.inl rfl) (by omega)
    rw [Nat.zero_mul, Nat.zero_add] at hfull hpart
    rw [hfull, hpart, hhalf]
    push_cast
    ring
  have hle : half ≤ f.nearest q := by
    rw [← nearest_value hf (show half < f.infinity by omega)]
    exact nearest_mono hf (by linarith)
  omega

/-- **No two numbers of few digits round to one magnitude.** -/
theorem eq_of_nearest_eq (hf : 0 < f.fractionBits) {n : Nat} (hn : 2 * 10 ^ n < f.stride)
    {x y : Rat} (hx : HasDigits n x) (hy : HasDigits n y) (heq : f.nearest x = f.nearest y)
    (hm : f.nearest x < f.infinity) (hnormal : f.stride ≤ 2 * f.nearest x) : x = y := by
  wlog hlt : x < y generalizing x y
  · rcases lt_or_eq_of_le (not_lt.mp hlt) with h | h
    · exact (this hy hx heq.symm (heq ▸ hm) (heq ▸ hnormal) h).symm
    · exact h.symm
  exfalso
  have hs := f.stride_pos
  obtain ⟨a, ha⟩ : ∃ a, f.nearest x = a + 1 := ⟨f.nearest x - 1, by omega⟩
  have hx0 := pos_of_nearest_pos (show 0 < f.nearest x by omega)
  rw [ha] at heq hm hnormal
  -- Both lie between the middles next to the magnitude.
  have hlow : f.middle a ≤ x := by
    have : ¬ f.nearest x ≤ a := by omega
    rw [nearest_le_iff hf (by omega), not_or, not_lt] at this
    exact this.1
  have hhigh : y ≤ f.middle (a + 1) := by
    rcases (nearest_le_iff hf hm y).mp heq.symm.le with h | h
    · exact h.le
    · exact h.1.le
  set gap := f.value (a + 2) - f.value (a + 1) with hgap
  have hbelow : f.value (a + 1) - f.value a ≤ gap := gap_below_le f a
  have hgap0 : 0 < gap := sub_pos.mpr (f.value_strictMono (Nat.lt_succ_self _))
  have hclose : y - x ≤ gap := by
    unfold middle at hlow hhigh
    linarith
  have hlarge : (f.stride - 1) * gap ≤ 2 * x := by
    have := stride_mul_gap_le hnormal
    unfold middle at hlow
    linarith
  have hstride : (2 * 10 ^ n : Rat) ≤ f.stride - 1 := by
    have : (2 * 10 ^ n + 1 : Rat) ≤ f.stride := by exact_mod_cast hn
    linarith
  have hapart : x < 10 ^ n * gap :=
    (hx.lt_mul_sub hy hx0 hlt).trans_le (mul_le_mul_of_nonneg_left hclose (by positivity))
  have := mul_le_mul_of_nonneg_right hstride hgap0.le
  linarith

/-- **Few digits survive.** Rounded to a magnitude that is not too small and written in as few
digits as tell the magnitude, a number of few digits is as it was. -/
theorem value_shortest_nearest (hf : 0 < f.fractionBits)
    (hdigits : 2 ^ (f.fractionBits + 1) < 10 ^ 16) {n : Nat} (hn : 2 * 10 ^ n < f.stride) {q : Rat}
    (hq : HasDigits n q) (hm : f.nearest q < f.infinity) (hnormal : f.stride ≤ 2 * f.nearest q) :
    (f.shortest (f.nearest q)).value = q := by
  have hs := f.stride_pos
  have hm0 : 0 < f.nearest q := by omega
  have hn17 : n ≤ enoughDigits := by
    have hpow : 10 ^ n < 10 ^ 16 := by
      rw [pow_succ, ← stride_eq] at hdigits
      omega
    have := (Nat.pow_lt_pow_iff_right (by norm_num)).mp hpow
    unfold enoughDigits
    omega
  have hback := nearest_value_shortest hf hdigits hm
  refine eq_of_nearest_eq hf hn (hasDigits_shortest hf hn17 hq hm0 hm) hq hback ?_ ?_
  · rwa [hback]
  · rwa [hback]

end LatLonText.BinaryFormat
