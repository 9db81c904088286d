/-
# Texts keep the order of ordinates

Of two finite ordinates the smaller one is never written as the larger number
(`Precision.text_mono`). A text that says infinity counts as the end of the line
on its side.

What a text denotes apart from its sign depends on the magnitude alone, and each
step from the magnitude to it keeps order: rounding to a binary format
(`BinaryFormat.nearest_mono`), rounding to significant digits
(`Decimal.ofRat_mono`), and taking the shortest decimal, because the decimals of
two magnitudes round to these magnitudes (`BinaryFormat.shortest_mono`). Two seams
are left. Where the leading power of ten changes, the power itself lies between
the two roundings. Where single precision ends, ordinates are written in full: the
last decimal of single precision, rounded to an ordinate, still lies before the
first ordinate beyond (`Precision.shortest_single_lt`).

Key definitions: `Literal.extended?`, `Precision.writtenMagnitude`.
Key theorems: `Decimal.ofRat_mono`, `BinaryFormat.shortest_mono`,
`Precision.writtenMagnitude_mono`, `Precision.text_mono`.
-/
import LatLonText.Proofs.DoubleRounding
import LatLonText.Proofs.Numeral
import Mathlib.Order.WithBot

namespace LatLonText

/-! ### The line with its two ends -/

/-- A number, or an end of the line. -/
abbrev Extended := WithBot (WithTop Rat)

namespace Extended

/-- What lies so far from zero, on the side that the sign says. -/
def signed (negative : Bool) (a : WithTop Rat) : Extended :=
  match negative, a with
  | false, a => a
  | true, ⊤ => ⊥
  | true, (q : Rat) => ((-q : Rat) : WithTop Rat)

@[simp]
theorem signed_false (a : WithTop Rat) : signed false a = a := rfl

/-- On the negative side the order is reversed. -/
theorem signed_true_le {a b : WithTop Rat} (h : a ≤ b) : signed true b ≤ signed true a := by
  induction b with
  | top => exact bot_le
  | coe q =>
    induction a with
    | top => simp at h
    | coe p =>
      have hpq : p ≤ q := WithTop.coe_le_coe.mp h
      exact WithBot.coe_le_coe.mpr (WithTop.coe_le_coe.mpr (neg_le_neg hpq))

/-- Zero lies between the two sides. -/
theorem signed_true_le_signed_false {a b : WithTop Rat} (ha : 0 ≤ a) (hb : 0 ≤ b) :
    signed true a ≤ signed false b := by
  have hzero : signed true 0 = signed false 0 := by
    show ((-0 : Rat) : WithTop Rat) = ((0 : WithTop Rat) : Extended)
    simp
  calc signed true a ≤ signed true 0 := signed_true_le ha
    _ = signed false 0 := hzero
    _ ≤ signed false b := by simpa using hb

end Extended

/-! ### What a literal denotes -/

namespace Literal

/-- Where a literal lies on the line; the infinities are its ends, and a NaN lies nowhere. -/
def extended? : Literal → Option Extended
  | .finite negative d => some (Extended.signed negative (d.value : Rat))
  | .infinite negative => some (Extended.signed negative ⊤)
  | .nan => none

/-- Where the number lies that a text denotes, if it is a number literal. -/
def extendedOf? (cs : List Char) : Option Extended :=
  (read cs).bind extended?

theorem extendedOf?_positional (negative : Bool) (d : Decimal) :
    extendedOf? (Precision.withSign negative d.positional) =
      some (Extended.signed negative (d.value : Rat)) := by
  obtain ⟨e, hread, hvalue⟩ := read_positional negative d
  rw [extendedOf?, hread, ← hvalue]
  rfl

theorem extendedOf?_inf (negative : Bool) :
    extendedOf? (Precision.withSign negative "inf".toList) = some (Extended.signed negative ⊤) := by
  have hread : read (Precision.withSign negative "inf".toList) = some (.infinite negative) := by
    cases negative <;> decide
  rw [extendedOf?, hread]
  rfl

end Literal

/-! ### Rounding keeps order -/

theorem roundHalfEven_mono {r s : Rat} (hr : 0 ≤ r) (h : r ≤ s) :
    roundHalfEven r ≤ roundHalfEven s := by
  rw [roundHalfEven_le_iff hr]
  rcases (roundHalfEven_le_iff (hr.trans h) _).mp le_rfl with hlt | ⟨heq, heven⟩
  · exact .inl (h.trans_lt hlt)
  · by_cases hrs : r = s
    · exact .inr ⟨hrs.trans heq, heven⟩
    · exact .inl (heq ▸ lt_of_le_of_ne h hrs)

/-- **Rounding to significant digits keeps order**, also from one decade to the next. -/
theorem Decimal.ofRat_mono {n : Nat} (hn : 0 < n) {x y : Rat} (hx : 0 < x) (h : x ≤ y) :
    (ofRat n x).value ≤ (ofRat n y).value := by
  have hy : 0 < y := hx.trans_le h
  by_cases hlead : decimalLog x = decimalLog y
  · have hunit : unitExponent n x = unitExponent n y := by
      unfold unitExponent
      rw [hlead]
    have hscaled : x * (10 : Rat) ^ (-unitExponent n y) ≤ y * (10 : Rat) ^ (-unitExponent n y) :=
      mul_le_mul_of_nonneg_right h (ten_zpow_pos _).le
    have hround := roundHalfEven_mono (mul_pos hx (ten_zpow_pos _)).le hscaled
    rw [value_ofRat, value_ofRat, hunit]
    apply mul_le_mul_of_nonneg_right _ (ten_zpow_pos _).le
    exact_mod_cast hround
  · -- A power of ten lies between, and neither rounding crosses it.
    have hnext : decimalLog x + 1 ≤ decimalLog y := by
      have := decimalLog_mono hx h
      omega
    calc (ofRat n x).value ≤ (10 : Rat) ^ (decimalLog x + 1) := ofRat_le_ten_zpow hn hx
      _ ≤ (10 : Rat) ^ decimalLog y := ten_zpow_le hnext
      _ ≤ (ofRat n y).value := ten_zpow_le_ofRat hn hy

namespace BinaryFormat

variable {f : BinaryFormat}

theorem value_shortest_nonneg (m : Nat) : 0 ≤ (f.shortest m).value :=
  mul_nonneg (by positivity) (ten_zpow_pos _).le

/-- A decimal that rounds to a smaller magnitude is smaller. -/
theorem lt_of_nearest_lt (hf : 0 < f.fractionBits) {r s : Rat} (h : f.nearest r < f.nearest s) :
    r < s := by
  by_contra hle
  have := nearest_mono hf (not_lt.mp hle)
  omega

/-- **Shortest decimals keep order.** -/
theorem shortest_mono (hf : 0 < f.fractionBits) (hdigits : 2 ^ (f.fractionBits + 1) < 10 ^ 16)
    {m k : Nat} (h : m ≤ k) (hk : k < f.infinity) :
    (f.shortest m).value ≤ (f.shortest k).value := by
  by_cases heq : m = k
  · rw [heq]
  · apply le_of_lt
    apply lt_of_nearest_lt hf
    rw [nearest_value_shortest hf hdigits (by omega), nearest_value_shortest hf hdigits hk]
    omega

end BinaryFormat

/-- Rounding an ordinate to significant digits keeps the order of magnitudes. -/
theorem Ordinate.magnitude_roundDigits_mono {n : Nat} (hn : 1 ≤ n) {v w : Ordinate}
    (h : v.magnitude ≤ w.magnitude) :
    (v.roundDigits n).magnitude ≤ (w.roundDigits n).magnitude := by
  by_cases hmany : 17 ≤ n
  · rwa [roundDigits_of_enough hmany, roundDigits_of_enough hmany]
  · by_cases hzero : v.magnitude = 0
    · rw [roundDigits_of_zero hzero, hzero]
      exact Nat.zero_le _
    · have hv : 0 < v.magnitude := Nat.pos_of_ne_zero hzero
      rw [Precision.roundDigits_eq (by omega) hv, Precision.roundDigits_eq (by omega) (by omega),
        magnitude_ofMagnitude (nearest_lt_signWeight _),
        magnitude_ofMagnitude (nearest_lt_signWeight _)]
      apply BinaryFormat.nearest_mono (by decide)
      apply Decimal.ofRat_mono hn (format.value_pos hv)
      exact format.value_strictMono.monotone h

/-! ### What a text denotes -/

namespace Precision

open Ordinate (format)
open BinaryFormat (binary32)

/-- How far from zero the number lies that the shortest text of an ordinate denotes. -/
def shortestMagnitude (v : Ordinate) : WithTop Rat :=
  if v.isInfinite then ⊤ else ((format.shortest v.magnitude).value : Rat)

/-- How far from zero the number lies that the text of a finite ordinate denotes. -/
def writtenMagnitude (p : Precision) (v : Ordinate) : WithTop Rat :=
  match p with
  | floating => shortestMagnitude v
  | single =>
    if narrow v < binary32.infinity then ((binary32.shortest (narrow v)).value : Rat)
    else shortestMagnitude v
  | fixed _ => shortestMagnitude (v.roundDigits p.maxDigits)

theorem extendedOf?_shortestText (v : Ordinate) :
    Literal.extendedOf? (shortestText v) =
      some (Extended.signed v.negative (shortestMagnitude v)) := by
  unfold shortestText shortestMagnitude
  by_cases hinf : v.isInfinite = true
  · rw [if_pos hinf, if_pos hinf, Literal.extendedOf?_inf]
  · rw [if_neg hinf, if_neg hinf, Literal.extendedOf?_positional]

theorem negative_roundDigits (n : Nat) (v : Ordinate) :
    (v.roundDigits n).negative = v.negative := by
  unfold Ordinate.roundDigits
  split
  · rfl
  · exact Ordinate.negative_ofMagnitude (Ordinate.nearest_lt_signWeight _) _

/-- **What a text denotes** has the sign of the ordinate. -/
theorem extendedOf?_text (p : Precision) {v : Ordinate} (hv : v.isFinite = true) :
    Literal.extendedOf? (p.text v) =
      some (Extended.signed v.negative (p.writtenMagnitude v)) := by
  rw [text_of_isFinite hv]
  cases p with
  | floating => exact extendedOf?_shortestText v
  | single =>
    unfold finiteText writtenMagnitude
    by_cases hrange : narrow v < binary32.infinity
    · simp only [if_pos hrange]
      exact Literal.extendedOf?_positional _ _
    · simp only [if_neg hrange]
      exact extendedOf?_shortestText v
  | fixed n =>
    have h := extendedOf?_shortestText (v.roundDigits (fixed n).maxDigits)
    rwa [negative_roundDigits] at h

theorem shortestMagnitude_nonneg (v : Ordinate) : 0 ≤ shortestMagnitude v := by
  unfold shortestMagnitude
  split
  · exact le_top
  · exact WithTop.coe_le_coe.mpr (BinaryFormat.value_shortest_nonneg _)

theorem writtenMagnitude_nonneg (p : Precision) (v : Ordinate) : 0 ≤ p.writtenMagnitude v := by
  cases p with
  | floating => exact shortestMagnitude_nonneg v
  | single =>
    simp only [writtenMagnitude]
    split
    · exact WithTop.coe_le_coe.mpr (BinaryFormat.value_shortest_nonneg _)
    · exact shortestMagnitude_nonneg v
  | fixed n => exact shortestMagnitude_nonneg _

/-- Zero is written as zero. -/
theorem writtenMagnitude_of_zero (p : Precision) {v : Ordinate} (h : v.magnitude = 0) :
    p.writtenMagnitude v = 0 := by
  have hshortest : shortestMagnitude v = 0 := by
    have hfinite : ¬ v.isInfinite = true := by
      simp only [Ordinate.isInfinite, h]
      decide
    rw [shortestMagnitude, if_neg hfinite, h, BinaryFormat.value_shortest_zero]
    rfl
  cases p with
  | floating => exact hshortest
  | single =>
    have hnarrow : narrow v = 0 := by
      rw [narrow, h, BinaryFormat.value_zero]
      rfl
    simp only [writtenMagnitude, hnarrow, BinaryFormat.value_shortest_zero]
    rfl
  | fixed n => rwa [writtenMagnitude, Ordinate.roundDigits_of_zero h]

/-! ### Texts in order -/

theorem shortestMagnitude_mono {v w : Ordinate} (hw : w.magnitude ≤ format.infinity)
    (h : v.magnitude ≤ w.magnitude) : shortestMagnitude v ≤ shortestMagnitude w := by
  unfold shortestMagnitude
  by_cases hinf : w.isInfinite = true
  · simp [hinf]
  · have hne : w.magnitude ≠ format.infinity := by simpa [Ordinate.isInfinite] using hinf
    have hfinite : ¬ v.isInfinite = true := by
      simp only [Ordinate.isInfinite, beq_iff_eq]
      omega
    rw [if_neg hinf, if_neg hfinite]
    apply WithTop.coe_le_coe.mpr
    exact BinaryFormat.shortest_mono (by decide) (by decide) h (by omega)

/-- Where single precision ends the texts do not fall back: an ordinate out of its range is written
as more than any in range. -/
theorem shortest_single_lt_shortest {m : Nat} (hm : m < binary32.infinity) {w : Ordinate}
    (hw : w.isFinite = true) (hrange : ¬ narrow w < binary32.infinity) :
    (binary32.shortest m).value < (format.shortest w.magnitude).value := by
  have hmag := Ordinate.magnitude_lt_infinity hw
  have hlast := shortest_single_lt hm
  have hbeyond : binary32.middle (binary32.infinity - 1) ≤ format.value w.magnitude := by
    rw [narrow, BinaryFormat.nearest_lt_infinity_iff (by decide) (by decide) (by decide)] at hrange
    exact not_lt.mp hrange
  apply BinaryFormat.lt_of_nearest_lt (f := format) (by decide)
  rw [BinaryFormat.nearest_value_shortest (by decide) (by decide) hmag]
  exact format.value_strictMono.lt_iff_lt.mp (hlast.trans_le hbeyond)

theorem writtenMagnitude_single_mono {v w : Ordinate} (hw : w.isFinite = true)
    (h : v.magnitude ≤ w.magnitude) : single.writtenMagnitude v ≤ single.writtenMagnitude w := by
  have hnarrow : narrow v ≤ narrow w :=
    BinaryFormat.nearest_mono (by decide) (format.value_strictMono.monotone h)
  unfold writtenMagnitude
  by_cases hrange : narrow w < binary32.infinity
  · simp only [if_pos hrange, if_pos (hnarrow.trans_lt hrange)]
    apply WithTop.coe_le_coe.mpr
    exact BinaryFormat.shortest_mono (by decide) (by decide) hnarrow hrange
  · by_cases hin : narrow v < binary32.infinity
    · have hfinite : ¬ w.isInfinite = true := by
        have := Ordinate.magnitude_lt_infinity hw
        simp only [Ordinate.isInfinite, beq_iff_eq]
        omega
      simp only [if_neg hrange, if_pos hin, shortestMagnitude, if_neg hfinite]
      apply WithTop.coe_le_coe.mpr
      exact (shortest_single_lt_shortest hin hw hrange).le
    · simp only [if_neg hrange, if_neg hin]
      exact shortestMagnitude_mono (Ordinate.magnitude_lt_infinity hw).le h

/-- **The larger magnitude is written as the larger one**, under every precision. -/
theorem writtenMagnitude_mono (p : Precision) {v w : Ordinate} (hw : w.isFinite = true)
    (h : v.magnitude ≤ w.magnitude) : p.writtenMagnitude v ≤ p.writtenMagnitude w := by
  cases p with
  | floating => exact shortestMagnitude_mono (Ordinate.magnitude_lt_infinity hw).le h
  | single => exact writtenMagnitude_single_mono hw h
  | fixed n =>
    apply shortestMagnitude_mono
    · unfold Ordinate.roundDigits
      split
      · exact (Ordinate.magnitude_lt_infinity hw).le
      · rw [Ordinate.magnitude_ofMagnitude (Ordinate.nearest_lt_signWeight _)]
        exact format.nearest_le_infinity _
    · exact Ordinate.magnitude_roundDigits_mono (maxDigits_fixed_pos n) h

/-- **Texts keep the order of ordinates.** Of two finite ordinates, the text of the one that is not
larger denotes a number that is not larger, under every precision. -/
theorem text_mono (p : Precision) {v w : Ordinate} (hv : v.isFinite = true)
    (hw : w.isFinite = true) (h : v.toRat ≤ w.toRat) :
    ∃ a b : Extended, Literal.extendedOf? (p.text v) = some a ∧
      Literal.extendedOf? (p.text w) = some b ∧ a ≤ b := by
  refine ⟨_, _, extendedOf?_text p hv, extendedOf?_text p hw, ?_⟩
  have hva := format.value_nonneg v.magnitude
  have hwa := format.value_nonneg w.magnitude
  unfold Ordinate.toRat at h
  cases hnv : v.negative <;> cases hnw : w.negative <;> simp only [hnv, hnw] at h
  · -- both from zero up
    have hle : v.magnitude ≤ w.magnitude := format.value_strictMono.le_iff_le.mp (by simpa using h)
    simpa using p.writtenMagnitude_mono hw hle
  · -- a number from zero up is at most one from zero down only if both are zero
    have hzero : ∀ m, format.value m ≤ 0 → m = 0 := by
      intro m hm
      by_contra hne
      exact absurd (format.value_pos (Nat.pos_of_ne_zero hne)) (not_lt.mpr hm)
    have h' : format.value v.magnitude ≤ -format.value w.magnitude := by simpa using h
    rw [p.writtenMagnitude_of_zero (hzero _ (by linarith)),
      p.writtenMagnitude_of_zero (hzero _ (by linarith))]
    simp [Extended.signed]
  · exact Extended.signed_true_le_signed_false (p.writtenMagnitude_nonneg v)
      (p.writtenMagnitude_nonneg w)
  · have hle : w.magnitude ≤ v.magnitude := format.value_strictMono.le_iff_le.mp (by simpa using h)
    exact Extended.signed_true_le (p.writtenMagnitude_mono hv hle)

/-- At the end of single precision: the largest magnitude of it is written in eight digits as a
larger number, and the first ordinate beyond in seventeen as a still larger one. Under one digit the
ordinate below all others is written as the end of the line. -/
theorem text_mono_at_ends :
    let last : Ordinate := ⟨0x47efffffe0000000⟩
    let beyond : Ordinate := ⟨0x47effffff0000000⟩
    let lowest : Ordinate := ⟨0xffefffffffffffff⟩
    single.text last = "340282350000000000000000000000000000000".toList ∧
      single.text beyond = "340282356779733660000000000000000000000".toList ∧
      (fixed 1).text lowest = "-inf".toList ∧
      (∃ a b : Extended, Literal.extendedOf? (single.text last) = some a ∧
        Literal.extendedOf? (single.text beyond) = some b ∧ a ≤ b) ∧
      ∃ a b : Extended, Literal.extendedOf? ((fixed 1).text lowest) = some a ∧
        Literal.extendedOf? ((fixed 1).text last) = some b ∧ a ≤ b := by
  intro last beyond lowest
  have hlast : last.toRat ≤ beyond.toRat := by decide +kernel
  have hlowest : lowest.toRat ≤ last.toRat := by decide +kernel
  exact ⟨by decide +kernel, by decide +kernel, by decide +kernel,
    text_mono single (by decide) (by decide) hlast,
    text_mono (fixed 1) (by decide) (by decide) hlowest⟩

end Precision

end LatLonText
