/-
# The text of an ordinate under fixed precision

Under a fixed precision of `n` digits an ordinate is rounded to `n` significant
digits, the rounded number is taken back to the nearest ordinate, and that one is
written in the shortest way. For up to fifteen digits and ordinates from the
least normal one on, the detour leaves no trace: the text is that of the rounded
number (`text_fixed`), and so denotes the exact rounding of the ordinate
(`text_fixed_denotes_rounding`).

Fifteen digits are the most for which it holds everywhere, and the subnormal
ordinates are left out because they lie too far apart for fifteen digits.

Key definitions: `Literal.number?`, `Literal.numberOf?`.
Key theorems: `Literal.numberOf?_positional`, `Precision.text_fixed`,
`Precision.text_fixed_denotes_rounding`.
-/
import LatLonText.Proofs.FewDigits
import LatLonText.Proofs.OrdinateText

namespace LatLonText

/-! ### The number that a text denotes -/

namespace Literal

/-- The number that a literal stands for; infinity and NaN stand for none. -/
def number? : Literal → Option Rat
  | .finite negative d => some (if negative then -d.value else d.value)
  | .infinite _ => none
  | .nan => none

/-- The number that a text denotes, if it is a number literal. -/
def numberOf? (cs : List Char) : Option Rat :=
  (read cs).bind number?

/-- A text that begins with a digit is read without a sign. -/
theorem read_of_isDigit {c : Char} (h : c.isDigit = true) (cs : List Char) :
    read (c :: cs) = readUnsigned false (c :: cs) := by
  unfold read
  split
  · rename_i heq
    rw [(List.cons.inj heq).1] at h
    exact absurd h (by decide)
  · rename_i heq
    rw [(List.cons.inj heq).1] at h
    exact absurd h (by decide)
  · rfl

/-- And with a sign in front, with that sign. -/
theorem read_withSign (negative : Bool) {c : Char} (h : c.isDigit = true) (cs : List Char) :
    read (Precision.withSign negative (c :: cs)) = readUnsigned negative (c :: cs) := by
  cases negative
  · exact read_of_isDigit h cs
  · rfl

/-- A decimal with a sign in front is read as a decimal of the same value, with that sign. -/
theorem read_positional (negative : Bool) (d : Decimal) :
    ∃ e : Decimal, read (Precision.withSign negative d.positional) = some (.finite negative e) ∧
      e.value = d.value := by
  obtain ⟨e, hread, hvalue⟩ := readUnsigned_positional negative d
  obtain ⟨c, cs, hd, hc⟩ := d.head_positional
  refine ⟨e, ?_, hvalue⟩
  rw [hd, read_withSign negative hc, ← hd, hread]

/-- A decimal with a sign in front denotes its number. -/
theorem numberOf?_positional (negative : Bool) (d : Decimal) :
    numberOf? (Precision.withSign negative d.positional) =
      some (if negative then -d.value else d.value) := by
  obtain ⟨e, hread, hvalue⟩ := read_positional negative d
  rw [numberOf?, hread, ← hvalue]
  rfl

end Literal

/-! ### Ordinates by sign and magnitude -/

namespace Ordinate

theorem infinity_lt_signWeight : format.infinity < signWeight := by decide

theorem magnitude_ofMagnitude {m : Nat} (hm : m < signWeight) (negative : Bool) :
    (ofMagnitude negative m).magnitude = m := by
  cases negative <;> simp [ofMagnitude, magnitude, signWeight] at hm ⊢ <;> omega

theorem negative_ofMagnitude {m : Nat} (hm : m < signWeight) (negative : Bool) :
    (ofMagnitude negative m).negative = negative := by
  cases negative <;> simp [ofMagnitude, Ordinate.negative, signWeight] at hm ⊢ <;> omega

theorem abs_toRat (v : Ordinate) : |v.toRat| = format.value v.magnitude := by
  have h := format.value_nonneg v.magnitude
  unfold toRat
  split
  · rw [abs_neg, abs_of_nonneg h]
  · rw [abs_of_nonneg h]

/-- The magnitudes from the least normal one on are those of at least `2 ^ (-1022)`. -/
theorem stride_le_magnitude {v : Ordinate} (h : (2 : Rat) ^ (-1022 : Int) ≤ |v.toRat|) :
    format.stride ≤ v.magnitude := by
  have hleast : format.value format.stride = (2 : Rat) ^ (-1022 : Int) := by
    have hvalue := format.value_add (k := 0) (j := format.stride) (.inl rfl) (by omega)
    rw [Nat.zero_mul, Nat.zero_add, BinaryFormat.stride_eq] at hvalue
    rw [BinaryFormat.stride_eq, hvalue, Nat.cast_pow, Nat.cast_ofNat, ← zpow_natCast,
      ← zpow_add₀ (by norm_num)]
    rfl
  rw [abs_toRat, ← hleast, format.value_strictMono.le_iff_le] at h
  exact h

end Ordinate

/-! ### Fixed precision -/

namespace Precision

open Ordinate (format)

theorem text_of_isFinite {v : Ordinate} (h : v.isFinite = true) (p : Precision) :
    p.text v = p.finiteText v := by
  have hfinite : v.magnitude < format.infinity := of_decide_eq_true h
  have hnan : v.isNaN = false := by
    rw [Ordinate.isNaN, decide_eq_false_iff_not]
    omega
  have hinfinite : v.isInfinite = false := by
    rw [Ordinate.isInfinite, beq_eq_false_iff_ne]
    omega
  simp [text, hnan, hinfinite]

theorem shortestText_ofMagnitude {m : Nat} (hm : m < format.infinity) (negative : Bool) :
    shortestText (Ordinate.ofMagnitude negative m) =
      withSign negative (format.shortest m).positional := by
  have hweight := hm.trans Ordinate.infinity_lt_signWeight
  have hinfinite : (Ordinate.ofMagnitude negative m).isInfinite = false := by
    rw [Ordinate.isInfinite, beq_eq_false_iff_ne, Ordinate.magnitude_ofMagnitude hweight]
    omega
  rw [shortestText, Ordinate.negative_ofMagnitude hweight, hinfinite,
    Ordinate.magnitude_ofMagnitude hweight]
  rfl

/-- An ordinate is rounded to few digits and then to the nearest ordinate. -/
theorem roundDigits_eq {n : Nat} (hn : n < 17) {v : Ordinate} (hv : 0 < v.magnitude) :
    v.roundDigits n = Ordinate.ofMagnitude v.negative
      (format.nearest (Decimal.ofRat n (format.value v.magnitude)).value) := by
  have hzero : ¬ v.magnitude = 0 := by omega
  have henough : ¬ BinaryFormat.enoughDigits ≤ n := by
    unfold BinaryFormat.enoughDigits
    omega
  simp [Ordinate.roundDigits, hzero, henough]

/-- **The detour leaves no trace.** Under a fixed precision of at most fifteen digits, the text of
a normal ordinate is that of the rounded number. -/
theorem text_fixed {n : UInt32} (hn1 : 1 ≤ n.toNat) (hn : n.toNat ≤ 15) {v : Ordinate}
    (hv : v.isFinite = true) (hnormal : format.stride ≤ v.magnitude)
    (hround : (v.roundDigits n.toNat).isFinite = true) :
    (fixed n).text v = withSign v.negative
      (Decimal.ofRat n.toNat (format.value v.magnitude)).positional := by
  have hf : 0 < format.fractionBits := by decide
  have hmag : 0 < v.magnitude := format.stride_pos.trans_le hnormal
  have hx := format.value_pos hmag
  have hrounded := roundDigits_eq (show n.toNat < 17 by omega) hmag
  set d := Decimal.ofRat n.toNat (format.value v.magnitude) with hd
  have hdigits : HasDigits n.toNat d.value := Decimal.hasDigits_ofRat hn1 hx
  have hm : format.nearest d.value < format.infinity := by
    have hweight := (format.nearest_le_infinity d.value).trans_lt Ordinate.infinity_lt_signWeight
    rw [hrounded, Ordinate.isFinite, Ordinate.magnitude_ofMagnitude hweight] at hround
    exact of_decide_eq_true hround
  have hlarge : format.stride ≤ 2 * format.nearest d.value := by
    refine BinaryFormat.stride_le_two_mul_nearest hf (by decide) ?_
    calc format.value format.stride ≤ format.value v.magnitude :=
          format.value_strictMono.monotone hnormal
      _ ≤ 2 * d.value := (Decimal.lt_two_mul_ofRat hn1 hx).le
  -- Fifteen digits are few enough for double precision, and fewer are the more so.
  have hfew : 2 * 10 ^ n.toNat < format.stride := by
    have hpow : 10 ^ n.toNat ≤ 10 ^ 15 := Nat.pow_le_pow_right (by norm_num) hn
    have hstride : 2 * 10 ^ 15 < format.stride := by decide
    omega
  have hback : (format.shortest (format.nearest d.value)).value = d.value :=
    BinaryFormat.value_shortest_nearest hf (by decide) hfew hdigits hm hlarge
  have hmax : (fixed n).maxDigits = n.toNat := Nat.max_eq_left hn1
  rw [text_of_isFinite hv, finiteText, hmax, hrounded, shortestText_ofMagnitude hm,
    Decimal.positional_eq_of_value_eq hback]

/-- **Fixed precision writes the exact rounding.** With one to fifteen digits, the text of a normal
ordinate denotes the one number that is the ordinate rounded to so many significant digits, ties to
the even digit, and is the text that number itself has, unless it rounds to infinity. -/
theorem text_fixed_denotes_rounding {n : UInt32} (hn1 : 1 ≤ n.toNat) (hn : n.toNat ≤ 15)
    {v : Ordinate} (hv : v.isFinite = true) (hlow : (2 : Rat) ^ (-1022 : Int) ≤ |v.toRat|)
    (hround : (v.roundDigits n.toNat).isFinite = true) :
    (fixed n).text v =
        withSign v.negative (Decimal.ofRat n.toNat |v.toRat|).positional ∧
      ∃ q : Rat, Literal.numberOf? ((fixed n).text v) = some q ∧
        ∀ r : Rat, IsRounding n.toNat v.toRat r ↔ r = q := by
  have hnormal := Ordinate.stride_le_magnitude hlow
  have hx := format.value_pos (format.stride_pos.trans_le hnormal)
  have htext := text_fixed hn1 hn hv hnormal hround
  set d := Decimal.ofRat n.toNat (format.value v.magnitude) with hd
  have hrounding : IsRounding n.toNat v.toRat (if v.negative then -d.value else d.value) := by
    have hmagnitude := Decimal.isRounding_ofRat hn1 hx
    unfold Ordinate.toRat
    split
    · exact hmagnitude.neg
    · exact hmagnitude
  refine ⟨by rw [Ordinate.abs_toRat, htext], _, htext ▸ Literal.numberOf?_positional _ d, ?_⟩
  intro r
  constructor
  · intro hr
    exact hr.unique hrounding
  · rintro rfl
    exact hrounding

/-- All nines carry: the double nearest to `10 ^ 23` lies below it, rounds up to it, and is written
as the power of ten although the number read back is again below. -/
theorem text_fixed_denotes_rounding_carry :
    let v : Ordinate := ⟨0x44b52d02c7e14af6⟩
    (2 : Rat) ^ (-1022 : Int) ≤ |v.toRat| ∧ |v.toRat| < 10 ^ 23 ∧
      (fixed 15).text v = "100000000000000000000000".toList ∧
      ∃ q : Rat, Literal.numberOf? ((fixed 15).text v) = some q ∧
        ∀ r : Rat, IsRounding 15 v.toRat r ↔ r = q := by
  intro v
  have hlow : (2 : Rat) ^ (-1022 : Int) ≤ |v.toRat| := by decide +kernel
  have h := text_fixed_denotes_rounding (n := 15) (by decide) (by decide) (by decide) hlow
    (by decide +kernel)
  exact ⟨hlow, by decide +kernel, h.1.trans (by decide +kernel), h.2⟩

end Precision

end LatLonText
