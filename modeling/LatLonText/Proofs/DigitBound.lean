/-
# How many digits are written

Each precision model says how many significant digits it writes at most, and no
finite ordinate is written with more (`Precision.significantDigits_text_le`).

For floating and single precision this is that seventeen digits outnumber the
significands of double precision, and nine those of single precision
(`BinaryFormat.hasDigits_shortest_of_lt_pow`). Under a fixed precision the
ordinate is rounded to so many digits first and then taken to the nearest
ordinate, which may need seventeen. But it is written in the shortest way, and
the decimal it was rounded to is one that reads back as it.

Key theorems: `BinaryFormat.hasDigits_shortest_nearest`,
`Ordinate.hasDigits_shortest_roundDigits`, `Precision.significantDigits_text_le`.
-/
import LatLonText.Proofs.Numeral

namespace LatLonText

namespace BinaryFormat

variable {f : BinaryFormat}

theorem hasDigits_shortest_zero (n : Nat) : HasDigits n (f.shortest 0).value := by
  rw [value_shortest_zero]
  exact hasDigits_zero n

/-- Zero included, the shortest decimal has no more digits than outnumber the significands. -/
theorem hasDigits_shortest_of_lt (hf : 0 < f.fractionBits) {n : Nat} (hn : n + 1 ≤ enoughDigits)
    (hdigits : 2 ^ (f.fractionBits + 1) < 10 ^ n) {m : Nat} (hm : m < f.infinity) :
    HasDigits (n + 1) (f.shortest m).value := by
  rcases Nat.eq_zero_or_pos m with rfl | hm0
  · exact hasDigits_shortest_zero (n + 1)
  · exact hasDigits_shortest_of_lt_pow hf hn hdigits hm0 hm

/-- And no more than a number that rounds to the magnitude. -/
theorem hasDigits_shortest_nearest (hf : 0 < f.fractionBits) {n : Nat} (hn : n ≤ enoughDigits)
    {q : Rat} (hq : HasDigits n q) (hm : f.nearest q < f.infinity) :
    HasDigits n (f.shortest (f.nearest q)).value := by
  rcases Nat.eq_zero_or_pos (f.nearest q) with hzero | hpos
  · rw [hzero]
    exact hasDigits_shortest_zero n
  · exact hasDigits_shortest hf hn hq hpos hm

end BinaryFormat

namespace Ordinate

theorem hasDigits_shortest {v : Ordinate} (hv : v.isFinite = true) :
    HasDigits 17 (format.shortest v.magnitude).value :=
  BinaryFormat.hasDigits_shortest_of_lt (by decide) (n := 16) le_rfl (by decide)
    (magnitude_lt_infinity hv)

/-- An ordinate rounded to `n` digits is written with no more than `n`, though it may not be a
number of `n` digits itself. -/
theorem hasDigits_shortest_roundDigits {v : Ordinate} (hv : v.isFinite = true) {n : Nat}
    (hn : 1 ≤ n) (hround : (v.roundDigits n).isFinite = true) :
    HasDigits n (format.shortest (v.roundDigits n).magnitude).value := by
  rcases Nat.lt_or_ge n 17 with hfew | hmany
  · rcases Nat.eq_zero_or_pos v.magnitude with hzero | hpos
    · rw [roundDigits_of_zero hzero, hzero]
      exact BinaryFormat.hasDigits_shortest_zero n
    · set q := (Decimal.ofRat n (format.value v.magnitude)).value with hq
      have hmag : (v.roundDigits n).magnitude = format.nearest q := by
        rw [Precision.roundDigits_eq hfew hpos, magnitude_ofMagnitude (nearest_lt_signWeight _)]
      have hdigits : HasDigits n q := Decimal.hasDigits_ofRat hn (format.value_pos hpos)
      have hfinite := magnitude_lt_infinity hround
      rw [hmag] at hfinite ⊢
      exact BinaryFormat.hasDigits_shortest_nearest (by decide) hfew.le hdigits hfinite
  · rw [roundDigits_of_enough hmany]
    exact (hasDigits_shortest hv).mono hmany

end Ordinate

namespace Precision

open Ordinate (format)
open BinaryFormat (binary32)

/-- The shortest text of a finite ordinate has the digits of its decimal. -/
theorem significantDigits_shortestText_le {v : Ordinate} (hv : v.isFinite = true) {n : Nat}
    (h : HasDigits n (format.shortest v.magnitude).value) :
    significantDigits (shortestText v) ≤ n := by
  rw [shortestText_eq hv]
  exact (Decimal.hasDigits_iff_text _ _).mp h

theorem significantDigits_single_le {v : Ordinate} (hv : v.isFinite = true)
    (hrange : narrow v < binary32.infinity) : significantDigits (single.text v) ≤ 9 := by
  rw [text_single_of_lt hv hrange, ← Decimal.hasDigits_iff_text]
  exact BinaryFormat.hasDigits_shortest_of_lt (by decide) (n := 8) (by decide) (by decide) hrange

/-- The word for infinity has no digits. -/
theorem significantDigits_inf (negative : Bool) :
    significantDigits (withSign negative "inf".toList) = 0 := by
  cases negative <;> decide

theorem significantDigits_fixed_le (n : UInt32) {v : Ordinate} (hv : v.isFinite = true) :
    significantDigits ((fixed n).text v) ≤ min (fixed n).maxDigits 17 := by
  by_cases hover : (fixed n).Overflows v
  · rw [text_fixed_of_overflows hv hover, significantDigits_inf]
    exact Nat.zero_le _
  · rw [overflows_fixed_iff n hv, Bool.not_eq_false] at hover
    rw [text_of_isFinite hv, finiteText]
    refine le_min ?_ ?_
    · exact significantDigits_shortestText_le hover
        (Ordinate.hasDigits_shortest_roundDigits hv (maxDigits_fixed_pos n) hover)
    · exact significantDigits_shortestText_le hover (Ordinate.hasDigits_shortest hover)

/-- **No precision writes more digits than it says**, and none more than seventeen. The bound of
single precision is for the ordinates in its range. Where a fixed precision rounds out of range, the
text is a word and has no digits. -/
theorem significantDigits_text_le (p : Precision) {v : Ordinate} (hv : v.isFinite = true)
    (hrange : p = single → narrow v < binary32.infinity) :
    significantDigits (p.text v) ≤ p.maxDigits ∧ significantDigits (p.text v) ≤ 17 := by
  cases p with
  | floating =>
    have h : significantDigits (floating.text v) ≤ 17 := by
      rw [text_floating_eq hv]
      exact significantDigits_shortestText_le hv (Ordinate.hasDigits_shortest hv)
    exact ⟨h, h⟩
  | single =>
    have h := significantDigits_single_le hv (hrange rfl)
    exact ⟨h, h.trans (by decide)⟩
  | fixed n => exact le_min_iff.mp (significantDigits_fixed_le n hv)

/-- The bounds of floating and single precision are met, and sixteen digits by an ordinate that has
seventeen of its own. -/
theorem significantDigits_text_le_sharp :
    let sum : Ordinate := ⟨0x3fd3333333333334⟩
    let longitude : Ordinate := ⟨0x405c819980000000⟩
    floating.text sum = "0.30000000000000004".toList ∧
      single.text longitude = "114.024994".toList ∧
      (fixed 16).text sum = "0.3".toList ∧
      significantDigits (floating.text sum) ≤ 17 ∧
      significantDigits (single.text longitude) ≤ 9 ∧
      significantDigits ((fixed 16).text sum) ≤ 16 := by
  intro sum longitude
  have hrange : narrow longitude < binary32.infinity := by decide +kernel
  exact ⟨by decide +kernel, by decide +kernel, by decide +kernel,
    (significantDigits_text_le floating (by decide) nofun).1,
    (significantDigits_text_le single (by decide) fun _ => hrange).1,
    (significantDigits_text_le (fixed 16) (by decide) nofun).1⟩

end Precision

end LatLonText
