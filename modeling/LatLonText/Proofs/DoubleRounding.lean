/-
# Rounding to double and then to single precision

A number is rounded to single precision, or first to double precision and from
there to single. The two ways part only at the middles between two magnitudes of
single precision. Every such middle is a number of double precision
(`BinaryFormat.exists_value_eq_middle`), so the detour does not cross one; but it
may end on one, and a middle goes to its even neighbour wherever the number came
from (`BinaryFormat.nearest_nearest_iff`).

So the text of an ordinate under single precision, read back as an ordinate and
written again, is the same text unless the ordinate read back lies on a middle next
to an odd magnitude, the one that the text stands for. Then the text changes, once:
the second text stands for an even magnitude and stays
(`Precision.single_text_reread`).

Key definitions: `BinaryFormat.HalfwayTo`.
Key theorems: `BinaryFormat.nearest_nearest_iff`, `Precision.single_text_reread`.
-/
import LatLonText.Proofs.ShortestText

namespace LatLonText

namespace BinaryFormat

/-! ### Magnitudes of a wider format -/

/-- A format has all multiples, up to twice its stride, of the powers of two that are units of its. -/
theorem exists_value_eq (g : BinaryFormat) : ∀ (k j : Nat), j ≤ 2 * g.stride →
    ∃ m, g.value m = j * (2 : Rat) ^ (g.minExponent + k)
  | 0, j, hj => ⟨j, by simpa using g.value_add (k := 0) (.inl rfl) hj⟩
  | k + 1, j, hj => by
    rcases Nat.lt_or_ge j g.stride with hlt | hge
    · -- Too small for this unit, it is the double of one that is half as large.
      obtain ⟨m, hm⟩ := exists_value_eq g k (2 * j) (by omega)
      refine ⟨m, ?_⟩
      rw [hm, Nat.cast_succ, ← add_assoc, zpow_add_one₀ (by norm_num)]
      push_cast
      ring
    · exact ⟨_, g.value_add (.inr hge) hj⟩

section

variable {f g : BinaryFormat} (hstride : 2 * f.stride ≤ g.stride)
  (hmin : g.minExponent < f.minExponent)
include hstride hmin

/-- The middles of a format are magnitudes of one that is wider by a bit. -/
theorem exists_value_eq_middle (m : Nat) : ∃ n, g.value n = f.middle m := by
  obtain ⟨k, j, rfl, hk, hj⟩ := f.exists_binade m
  obtain ⟨i, hi⟩ : ∃ i : Nat, f.minExponent + k - 1 = g.minExponent + i :=
    ⟨(f.minExponent + k - 1 - g.minExponent).toNat, by omega⟩
  obtain ⟨n, hn⟩ := g.exists_value_eq i (2 * j + 1) (by omega)
  refine ⟨n, ?_⟩
  rw [hn, ← hi, f.middle_add hk hj, zpow_sub_one₀ (by norm_num)]
  push_cast
  ring

variable (hg : 0 < g.fractionBits) (hff : f.stride ≤ f.infinity) (hgg : g.stride ≤ g.infinity)
  (htop : f.topExponent ≤ g.topExponent)
include hg hff hgg htop

/-- So they stay where they are when they are rounded to it. -/
theorem value_nearest_middle {m : Nat} (hm : m < f.infinity) :
    g.nearest (f.middle m) < g.infinity ∧ g.value (g.nearest (f.middle m)) = f.middle m := by
  obtain ⟨n, hn⟩ := exists_value_eq_middle hstride hmin m
  have hlt : g.value n < g.value g.infinity := by
    calc g.value n = f.middle m := hn
      _ < f.value (m + 1) := f.middle_lt_value_succ m
      _ ≤ f.value f.infinity := f.value_strictMono.monotone hm
      _ = (2 : Rat) ^ f.topExponent := value_infinity hff
      _ ≤ (2 : Rat) ^ g.topExponent := zpow_le_zpow_right₀ (by norm_num) htop
      _ = g.value g.infinity := (value_infinity hgg).symm
  have hfinite : n < g.infinity := g.value_strictMono.lt_iff_lt.mp hlt
  rw [← hn, nearest_value hg hfinite]
  exact ⟨hfinite, rfl⟩

/-- **Rounding to a wider format first crosses no middle.** -/
theorem value_nearest_between (hf : 0 < f.fractionBits) {r : Rat}
    (hr : f.nearest r < f.infinity) :
    g.nearest r < g.infinity ∧ g.value (g.nearest r) ≤ f.middle (f.nearest r) ∧
      ∀ k, k + 1 = f.nearest r → f.middle k ≤ g.value (g.nearest r) := by
  obtain ⟨hfinite, hvalue⟩ := value_nearest_middle hstride hmin hg hff hgg htop hr
  have habove : g.nearest r ≤ g.nearest (f.middle (f.nearest r)) :=
    nearest_mono hg (le_middle_nearest hf hr)
  refine ⟨habove.trans_lt hfinite, ?_, fun k hk => ?_⟩
  · exact (g.value_strictMono.monotone habove).trans hvalue.le
  · obtain ⟨-, hvalue'⟩ := value_nearest_middle hstride hmin hg hff hgg htop
      (show k < f.infinity by omega)
    rw [← hvalue']
    exact g.value_strictMono.monotone
      (nearest_mono hg (middle_le_of_lt_nearest hf (by omega)))

end

/-! ### On a middle -/

variable {f : BinaryFormat}

/-- Whether a number lies halfway between a magnitude and one of its neighbours. -/
def HalfwayTo (f : BinaryFormat) (m : Nat) (r : Rat) : Prop :=
  r = f.middle m ∨ ∃ k, k + 1 = m ∧ r = f.middle k

/-- A middle goes to its even neighbour. -/
theorem even_nearest_middle (hf : 0 < f.fractionBits) {m : Nat} (hm : m < f.infinity) :
    f.nearest (f.middle m) % 2 = 0 := by
  have hge : m ≤ f.nearest (f.middle m) := by
    rw [← nearest_value hf hm]
    exact nearest_mono hf ((nearest_value hf hm).symm ▸ (f.value_lt_middle m).le)
  have hle : f.nearest (f.middle m) ≤ m + 1 := by
    rcases Nat.lt_or_ge (m + 1) f.infinity with h | h
    · rw [← nearest_value hf h]
      exact nearest_mono hf ((nearest_value hf h).symm ▸ (f.middle_lt_value_succ m).le)
    · exact (f.nearest_le_infinity _).trans h
  rcases Nat.lt_or_ge m (f.nearest (f.middle m)) with hup | hdown
  · have := odd_of_middle_lt_nearest hf hup
    omega
  · have := even_of_nearest_middle_le hf hm hdown
    omega

/-- So does a number halfway to a neighbour: what it goes to is even. -/
theorem HalfwayTo.even_nearest (hf : 0 < f.fractionBits) {m : Nat} (hm : m < f.infinity) {r : Rat}
    (h : f.HalfwayTo m r) : f.nearest r % 2 = 0 := by
  rcases h with rfl | ⟨k, rfl, rfl⟩
  · exact even_nearest_middle hf hm
  · exact even_nearest_middle hf (Nat.lt_of_succ_lt hm)

/-- Between the middles on its two sides everything rounds to a magnitude, but the middles
themselves only if it is even. -/
theorem nearest_eq_iff_of_between (hf : 0 < f.fractionBits) {m : Nat} (hm : m < f.infinity)
    {r : Rat} (hlow : ∀ k, k + 1 = m → f.middle k ≤ r) (hhigh : r ≤ f.middle m) :
    f.nearest r = m ↔ ¬ (m % 2 = 1 ∧ f.HalfwayTo m r) := by
  constructor
  · rintro hr ⟨hodd, hhalf⟩
    have := hhalf.even_nearest hf hm
    omega
  · intro h
    rcases Nat.mod_two_eq_zero_or_one m with heven | hodd
    · refine Nat.le_antisymm ((nearest_le_iff hf hm r).mpr ?_) ?_
      · exact hhigh.lt_or_eq.imp id fun heq => ⟨heq, heven⟩
      · by_contra hlt
        obtain ⟨k, rfl⟩ : ∃ k, m = k + 1 := ⟨m - 1, by omega⟩
        rcases (nearest_le_iff hf (by omega) r).mp (show f.nearest r ≤ k by omega) with h | ⟨-, h⟩
        · exact absurd (hlow k rfl) (not_le.mpr h)
        · omega
    · have hnot : ¬ f.HalfwayTo m r := fun hhalf => h ⟨hodd, hhalf⟩
      refine nearest_eq_of_between hf hm (fun k hk => ?_) ?_
      · exact lt_of_le_of_ne (hlow k hk) fun heq => hnot (.inr ⟨k, hk, heq.symm⟩)
      · exact lt_of_le_of_ne hhigh fun heq => hnot (.inl heq)

/-- **Rounding by way of a wider format** gives another magnitude than rounding at once exactly if
the detour ends on a middle next to the magnitude, and that one is odd. -/
theorem nearest_nearest_iff {g : BinaryFormat} (hstride : 2 * f.stride ≤ g.stride)
    (hmin : g.minExponent < f.minExponent) (hg : 0 < g.fractionBits) (hff : f.stride ≤ f.infinity)
    (hgg : g.stride ≤ g.infinity) (htop : f.topExponent ≤ g.topExponent)
    (hf : 0 < f.fractionBits) {r : Rat} (hr : f.nearest r < f.infinity) :
    f.nearest (g.value (g.nearest r)) = f.nearest r ↔
      ¬ (f.nearest r % 2 = 1 ∧ f.HalfwayTo (f.nearest r) (g.value (g.nearest r))) := by
  obtain ⟨-, hhigh, hlow⟩ := value_nearest_between hstride hmin hg hff hgg htop hf hr
  exact nearest_eq_iff_of_between hf hr hlow hhigh

end BinaryFormat

/-! ### Single precision by way of double precision -/

namespace Precision

open Ordinate (format)
open BinaryFormat (binary32)

/-- What rounds to a finite magnitude of single precision rounds to one of double precision, which
lies no higher than the middle above the former. -/
theorem double_of_single {r : Rat} (hr : binary32.nearest r < binary32.infinity) :
    format.nearest r < format.infinity ∧
      format.value (format.nearest r) ≤ binary32.middle (binary32.nearest r) := by
  obtain ⟨hfinite, hhigh, -⟩ := BinaryFormat.value_nearest_between (f := binary32) (g := format)
    (by decide) (by decide) (by decide) (by decide) (by decide) (by decide) (by decide) hr
  exact ⟨hfinite, hhigh⟩

/-- Rounding to single precision by way of double precision. -/
theorem single_of_double_iff {r : Rat} (hr : binary32.nearest r < binary32.infinity) :
    binary32.nearest (format.value (format.nearest r)) = binary32.nearest r ↔
      ¬ (binary32.nearest r % 2 = 1 ∧
        binary32.HalfwayTo (binary32.nearest r) (format.value (format.nearest r))) :=
  BinaryFormat.nearest_nearest_iff (by decide) (by decide) (by decide) (by decide) (by decide)
    (by decide) (by decide) hr

/-- In the range of single precision, the text tells the sign and the magnitude that it stands
for. -/
theorem text_single_eq_iff {v w : Ordinate} (hv : v.isFinite = true) (hw : w.isFinite = true)
    (hnv : narrow v < binary32.infinity) (hnw : narrow w < binary32.infinity)
    (hsign : w.negative = v.negative) : single.text w = single.text v ↔ narrow w = narrow v := by
  rw [text_single_of_lt hv hnv, text_single_of_lt hw hnw, hsign]
  constructor
  · intro h
    have hcancel : (binary32.shortest (narrow w)).positional =
        (binary32.shortest (narrow v)).positional := by
      cases hneg : v.negative <;> rw [hneg] at h
      · exact h
      · exact (List.cons.inj h).2
    rw [← BinaryFormat.nearest_value_shortest (f := binary32) (by decide) (by decide) hnv,
      ← BinaryFormat.nearest_value_shortest (f := binary32) (by decide) (by decide) hnw,
      Decimal.value_eq_of_positional_eq hcancel]
  · intro h
    rw [h]

/-- Rounded to double precision, the shortest decimal of the largest magnitude of single precision
does not leave its range. -/
theorem shortest_largest_single_lt : format.value (format.nearest
      (binary32.shortest (binary32.infinity - 1)).value) <
    binary32.middle (binary32.infinity - 1) := by
  decide +kernel

/-- Nor does the shortest decimal of any other magnitude. -/
theorem shortest_single_lt {m : Nat} (hm : m < binary32.infinity) :
    format.value (format.nearest (binary32.shortest m).value) <
      binary32.middle (binary32.infinity - 1) := by
  have hback := BinaryFormat.nearest_value_shortest (f := binary32) (by decide) (by decide) hm
  have hmiddle := (double_of_single (r := (binary32.shortest m).value) (by rwa [hback])).2
  rw [hback] at hmiddle
  rcases Nat.lt_or_ge m (binary32.infinity - 1) with h | h
  · calc format.value (format.nearest (binary32.shortest m).value)
        ≤ binary32.middle m := hmiddle
      _ < binary32.value (m + 1) := binary32.middle_lt_value_succ _
      _ ≤ binary32.value (binary32.infinity - 1) := binary32.value_strictMono.monotone h
      _ < binary32.middle (binary32.infinity - 1) := binary32.value_lt_middle _
  · rw [show m = binary32.infinity - 1 by omega]
    exact shortest_largest_single_lt

/-- An ordinate in the range of single precision is read back, by its text, as an ordinate in that
range: the one nearest to a number that rounds to the same magnitude there. -/
theorem reread_of_lt {v : Ordinate} (hv : v.isFinite = true) (hlt : narrow v < binary32.infinity) :
    ∃ w, Ordinate.ofText? (single.text v) = some w ∧ w.isFinite = true ∧
      w.negative = v.negative ∧ narrow w < binary32.infinity ∧
      ∃ q, binary32.nearest q = narrow v ∧ |w.toRat| = format.value (format.nearest q) := by
  have hback := BinaryFormat.nearest_value_shortest (f := binary32) (by decide) (by decide) hlt
  have hrange := shortest_single_lt hlt
  set q := (binary32.shortest (narrow v)).value with hq
  have hweight := Ordinate.nearest_lt_signWeight q
  have hmag := Ordinate.magnitude_ofMagnitude hweight v.negative
  refine ⟨Ordinate.ofMagnitude v.negative (format.nearest q), ?_, ?_,
    Ordinate.negative_ofMagnitude hweight _, ?_, q, hback, ?_⟩
  · rw [text_single_of_lt hv hlt, Ordinate.ofText?_positional]
  · rw [Ordinate.isFinite, hmag]
    exact decide_eq_true (double_of_single (hback.symm ▸ hlt)).1
  · rw [narrow, hmag]
    exact (BinaryFormat.nearest_lt_infinity_iff (by decide) (by decide) (by decide) _).mpr hrange
  · rw [Ordinate.abs_toRat, hmag]

/-- Beyond that range an ordinate is read back as itself. -/
theorem reread_of_not_lt {v : Ordinate} (hv : v.isFinite = true)
    (h : ¬ narrow v < binary32.infinity) : Ordinate.ofText? (single.text v) = some v := by
  rw [text_single_of_not_lt hv h, text_floating_eq hv, Ordinate.ofText?_shortestText hv]

/-- When the text of an ordinate under single precision is read back and written again, it stays
unless the ordinate read back lies on a middle next to an odd magnitude, and then that ordinate has
an even one. -/
theorem reread_cases {v : Ordinate} (hv : v.isFinite = true) :
    ∃ w, Ordinate.ofText? (single.text v) = some w ∧ w.isFinite = true ∧
      (single.text w = single.text v ↔
        ¬ (narrow v % 2 = 1 ∧ binary32.HalfwayTo (narrow v) |w.toRat|)) ∧
      (single.text w ≠ single.text v → narrow w % 2 = 0) := by
  by_cases hlt : narrow v < binary32.infinity
  · obtain ⟨w, hread, hw, hsign, hnw, q, hq, hvalue⟩ := reread_of_lt hv hlt
    have hnarrow : narrow w = binary32.nearest |w.toRat| := by rw [narrow, Ordinate.abs_toRat]
    have hiff : single.text w = single.text v ↔
        ¬ (narrow v % 2 = 1 ∧ binary32.HalfwayTo (narrow v) |w.toRat|) := by
      rw [text_single_eq_iff hv hw hlt hnw hsign, hnarrow, hvalue, ← hq]
      exact single_of_double_iff (hq.symm ▸ hlt)
    refine ⟨w, hread, hw, hiff, fun hne => ?_⟩
    rw [Ne, hiff, not_not] at hne
    rw [hnarrow]
    exact hne.2.even_nearest (by decide) hlt
  · have hinf : narrow v = binary32.infinity :=
      Nat.le_antisymm (binary32.nearest_le_infinity _) (not_lt.mp hlt)
    have heven : ¬ (narrow v % 2 = 1 ∧ binary32.HalfwayTo (narrow v) |v.toRat|) := by
      rintro ⟨hodd, -⟩
      rw [hinf] at hodd
      exact absurd hodd (by decide)
    exact ⟨v, reread_of_not_lt hv hlt, hv, iff_of_true rfl heven, fun h => absurd rfl h⟩

/-- **When a single text is read back and written again.** The ordinate nearest to the text of a
finite ordinate under single precision is written the same way again, unless it lies exactly halfway
between the magnitude that the text stands for, and that one is odd, and a neighbour of it. And the
text that it is then written as stays. -/
theorem single_text_reread {v : Ordinate} (hv : v.isFinite = true) :
    ∃ w, Ordinate.ofText? (single.text v) = some w ∧
      (single.text w = single.text v ↔
        ¬ (narrow v % 2 = 1 ∧ binary32.HalfwayTo (narrow v) |w.toRat|)) ∧
      ∃ u, Ordinate.ofText? (single.text w) = some u ∧ single.text u = single.text w := by
  obtain ⟨w, hread, hw, hiff, heven⟩ := reread_cases hv
  obtain ⟨u, hread', -, hiff', -⟩ := reread_cases hw
  refine ⟨w, hread, hiff, u, hread', ?_⟩
  by_cases hsame : single.text w = single.text v
  · rw [hsame, hread, Option.some.injEq] at hread'
    rw [← hread']
  · refine hiff'.mpr fun hodd => ?_
    have := heven hsame
    omega

/-- The double nearest to `7.038531e-26` lies halfway between two magnitudes of single precision;
the text stands for the odd one, and is read back as an ordinate that goes to the even one. -/
theorem single_text_reread_changes :
    let v : Ordinate := ⟨0x3ab5c87fa0000000⟩
    let w : Ordinate := ⟨0x3ab5c87fb0000000⟩
    single.text v = "0.00000000000000000000000007038531".toList ∧
      Ordinate.ofText? (single.text v) = some w ∧
      single.text w = "0.000000000000000000000000070385313".toList ∧
      (narrow v % 2 = 1 ∧ binary32.HalfwayTo (narrow v) |w.toRat|) ∧
      ∃ u, Ordinate.ofText? (single.text w) = some u ∧ single.text u = single.text w := by
  intro v w
  have hread : Ordinate.ofText? (single.text v) = some w := by decide +kernel
  obtain ⟨w', hread', hiff, hstay⟩ := single_text_reread (v := v) (by decide)
  obtain rfl : w = w' := Option.some.inj (hread.symm.trans hread')
  have hchange : single.text w ≠ single.text v := by decide +kernel
  have hhalf := not_not.mp fun h => hchange (hiff.mpr h)
  exact ⟨by decide +kernel, hread, by decide +kernel, hhalf, hstay⟩

/-- Not every single text stays when it is read back and written again. -/
theorem not_forall_single_text_reread :
    ¬ ∀ v w : Ordinate, v.isFinite = true → Ordinate.ofText? (single.text v) = some w →
      single.text w = single.text v := by
  intro h
  have hsame := h ⟨0x3ab5c87fa0000000⟩ ⟨0x3ab5c87fb0000000⟩ (by decide) (by decide +kernel)
  exact absurd hsame (by decide +kernel)

end Precision

end LatLonText
