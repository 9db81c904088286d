/-
# Finite ordinates as plain numerals

A plain decimal numeral has an optional minus sign, an integer part without
superfluous zeros in front, and after a point, if there is one, digits that do not
end in zero. Positional notation is always such a numeral
(`Decimal.isNumeral_positional`), so a finite ordinate is written as one under
floating and single precision, and under a fixed precision that does not round it
out of range.

Fixed precision does round out of range: the largest ordinates lie above the last
decimals of few digits below the end of the range, and round up to decimals that
are read as infinite. Then the text is a word and no numeral
(`Precision.text_isNumeral_iff`, `Precision.not_forall_text_isNumeral`).

Key definitions: `IsNumeral`, `Precision.Overflows`.
Key theorems: `Decimal.isNumeral_positional`, `Precision.text_isNumeral_iff`.
-/
import LatLonText.Proofs.RoundTwice
import LatLonText.Proofs.ShortestText

namespace LatLonText

open Decimal (numeral)
open Precision (withSign)

/-! ### Numerals -/

/-- The integer part of a numeral: digits, with no zero in front of another one. -/
structure IsWholePart (cs : List Char) : Prop where
  ne_nil : cs ≠ []
  isDigit : ∀ c ∈ cs, c.isDigit = true
  eq_nil_of_zero : ∀ rest, cs = '0' :: rest → rest = []

/-- The decimal places of a numeral: digits that do not end in zero. -/
structure IsPlaces (cs : List Char) : Prop where
  ne_nil : cs ≠ []
  isDigit : ∀ c ∈ cs, c.isDigit = true
  getLast_ne : cs.getLast? ≠ some '0'

/-- A plain decimal numeral, with or without a minus sign, and with or without decimal places. -/
inductive IsNumeral : List Char → Prop
  | whole (negative : Bool) {ws : List Char} (hw : IsWholePart ws) : IsNumeral (withSign negative ws)
  | point (negative : Bool) {ws ps : List Char} (hw : IsWholePart ws) (hp : IsPlaces ps) :
      IsNumeral (withSign negative (ws ++ '.' :: ps))

theorem of_mem_withSign {negative : Bool} {cs : List Char} {c : Char}
    (h : c ∈ withSign negative cs) : c = '-' ∨ c ∈ cs := by
  cases negative
  · exact .inr h
  · exact List.mem_cons.mp h

/-- A numeral holds no letter, so it has no exponent and is none of the words. -/
theorem IsNumeral.of_mem {cs : List Char} (h : IsNumeral cs) {c : Char} (hc : c ∈ cs) :
    c = '-' ∨ c = '.' ∨ c.isDigit = true := by
  cases h with
  | whole negative hw =>
    rcases of_mem_withSign hc with hc | hc
    · exact .inl hc
    · exact .inr (.inr (hw.isDigit c hc))
  | point negative hw hp =>
    rcases of_mem_withSign hc with hc | hc
    · exact .inl hc
    · rw [List.mem_append, List.mem_cons] at hc
      rcases hc with hc | hc | hc
      · exact .inr (.inr (hw.isDigit c hc))
      · exact .inr (.inl hc)
      · exact .inr (.inr (hp.isDigit c hc))

theorem not_isNumeral_inf (negative : Bool) : ¬ IsNumeral (withSign negative "inf".toList) := by
  intro h
  have hi : 'i' ∈ withSign negative "inf".toList := by cases negative <;> decide
  have := h.of_mem hi
  revert this
  decide

/-! ### Positional notation -/

namespace Decimal

/-- The numeral of a whole number begins with zero only if it is zero: otherwise it would have a
digit too many. -/
theorem eq_nil_of_numeral_eq {n : Nat} {rest : List Char} (h : numeral n = '0' :: rest) :
    rest = [] := by
  by_contra hne
  have hdigits : ∀ c ∈ rest, c.isDigit = true := fun c hc =>
    isDigit_of_mem_numeral (h ▸ List.mem_cons_of_mem _ hc)
  have hvalue : n = Literal.digitsValue rest := by
    rw [← digitsValue_numeral n, h, ← List.singleton_append, Literal.digitsValue_append]
    simp [Literal.digitsValue]
  have hlen : (numeral n).length ≤ rest.length := by
    refine (Nat.length_toDigits_le_iff (by norm_num) (List.length_pos_of_ne_nil hne)).mpr ?_
    rw [hvalue]
    exact digitsValue_lt hdigits
  rw [h, List.length_cons] at hlen
  omega

theorem isWholePart_numeral (n : Nat) : IsWholePart (numeral n) where
  ne_nil := numeral_ne_nil n
  isDigit := fun _ => isDigit_of_mem_numeral
  eq_nil_of_zero := fun _ => eq_nil_of_numeral_eq

theorem getLast?_numeral (n : Nat) : (numeral n).getLast? = some (n % 10).digitChar := by
  rw [numeral, Nat.toDigits_eq_if (by norm_num)]
  split
  · rename_i h
    rw [Nat.mod_eq_of_lt h, List.getLast?_singleton]
  · exact List.getLast?_concat

theorem digitChar_ne_zero {k : Nat} (h0 : k ≠ 0) (hlt : k < 10) : k.digitChar ≠ '0' := by
  have hall : ∀ k < 10, k ≠ 0 → k.digitChar ≠ '0' := by decide
  exact hall k hlt h0

/-- Padded with zeros in front, a numeral that does not end in zero gives decimal places. -/
theorem isPlaces_leftpad (k : Nat) {n : Nat} (h : n % 10 ≠ 0) :
    IsPlaces ((numeral n).leftpad k '0') where
  ne_nil := by
    rw [List.leftpad]
    exact List.append_ne_nil_of_right_ne_nil _ (numeral_ne_nil n)
  isDigit := fun _ => isDigit_of_mem_leftpad
  getLast_ne := by
    rw [List.leftpad, List.getLast?_append_of_ne_nil _ (numeral_ne_nil n), getLast?_numeral]
    intro heq
    exact digitChar_ne_zero h (Nat.mod_lt _ (by norm_num)) (Option.some.inj heq)

/-- **Positional notation is a plain numeral.** -/
theorem isNumeral_positional (negative : Bool) (d : Decimal) :
    IsNumeral (withSign negative d.positional) := by
  unfold positional
  simp only
  split
  · exact .whole negative (isWholePart_numeral _)
  · rename_i he
    have hdigits : d.digits ≠ 0 := by
      intro h0
      rw [trim, if_pos h0] at he
      exact he le_rfl
    obtain ⟨k, hk⟩ : ∃ k, (-d.trim.exponent).toNat = k + 1 :=
      ⟨(-d.trim.exponent).toNat - 1, by omega⟩
    -- There is a place, so cutting off the whole units leaves the last digit.
    have hlast : d.trim.digits % Nat.pow 10 (-d.trim.exponent).toNat % 10 ≠ 0 := by
      have hdvd : 10 ∣ Nat.pow 10 (k + 1) := Dvd.intro_left _ rfl
      rw [hk, Nat.mod_mod_of_dvd _ hdvd]
      exact digits_trim hdigits
    exact .point negative (isWholePart_numeral _) (isPlaces_leftpad _ hlast)

end Decimal

/-! ### Ordinates rounded out of range -/

namespace Precision

open Ordinate (format)

/-- Whether a precision takes an ordinate out of range: it is a fixed one, of fewer digits than tell
all ordinates apart, and the ordinate rounded to that many digits is at least halfway from the
largest finite ordinate to `2 ^ 1024`. -/
def Overflows (p : Precision) (v : Ordinate) : Prop :=
  (∃ n, p = fixed n) ∧ p.maxDigits < 17 ∧
    ∃ q, IsRounding p.maxDigits |v.toRat| q ∧ (2 : Rat) ^ 1024 - 2 ^ 970 ≤ q

theorem maxDigits_fixed_pos (n : UInt32) : 0 < (fixed n).maxDigits :=
  Nat.lt_of_lt_of_le Nat.zero_lt_one (Nat.le_max_right _ _)

/-- Zero is never taken out of range. -/
theorem Overflows.magnitude_pos {p : Precision} {v : Ordinate} (h : p.Overflows v) :
    0 < v.magnitude := by
  obtain ⟨-, -, q, hq, -⟩ := h
  refine Nat.pos_of_ne_zero fun hzero => hq.ne_zero ?_
  rw [Ordinate.abs_toRat, hzero, BinaryFormat.value_zero]

/-- What overflows is what rounds to no finite ordinate. -/
theorem overflows_fixed_iff (n : UInt32) {v : Ordinate} (hv : v.isFinite = true) :
    (fixed n).Overflows v ↔ (v.roundDigits (fixed n).maxDigits).isFinite = false := by
  rcases Nat.eq_zero_or_pos v.magnitude with hzero | hpos
  · rw [Ordinate.roundDigits_of_zero hzero, hv]
    exact iff_of_false (fun h => h.magnitude_pos.ne' hzero) (by decide)
  have hn := maxDigits_fixed_pos n
  unfold Overflows
  generalize (fixed n).maxDigits = k at hn ⊢
  rcases Nat.lt_or_ge k 17 with hfew | hmany
  · have hround := Decimal.isRounding_ofRat hn (format.value_pos hpos)
    have hfinite : (v.roundDigits k).isFinite = true ↔
        (Decimal.ofRat k (format.value v.magnitude)).value < (2 : Rat) ^ 1024 - 2 ^ 970 := by
      rw [roundDigits_eq hfew hpos, Ordinate.isFinite,
        Ordinate.magnitude_ofMagnitude (Ordinate.nearest_lt_signWeight _), decide_eq_true_iff,
        BinaryFormat.nearest_lt_infinity_iff (by decide) (by decide) (by decide),
        show format.middle (format.infinity - 1) = (2 : Rat) ^ 1024 - 2 ^ 970 by decide +kernel]
    rw [Ordinate.abs_toRat, ← Bool.not_eq_true, hfinite, not_lt]
    constructor
    · rintro ⟨-, -, q, hq, hlarge⟩
      rwa [hround.unique hq]
    · intro hlarge
      exact ⟨⟨n, rfl⟩, hfew, _, hround, hlarge⟩
  · rw [Ordinate.roundDigits_of_enough hmany, hv]
    refine iff_of_false ?_ (by decide)
    rintro ⟨-, hlt, -⟩
    omega

theorem isNumeral_shortestText {v : Ordinate} (hv : v.isFinite = true) :
    IsNumeral (shortestText v) := by
  rw [shortestText_eq hv]
  exact Decimal.isNumeral_positional _ _

theorem isNumeral_text_floating {v : Ordinate} (hv : v.isFinite = true) :
    IsNumeral (floating.text v) := by
  rw [text_floating_eq hv]
  exact isNumeral_shortestText hv

theorem isNumeral_text_single {v : Ordinate} (hv : v.isFinite = true) :
    IsNumeral (single.text v) := by
  rcases Nat.lt_or_ge (narrow v) BinaryFormat.binary32.infinity with hlt | hge
  · rw [text_single_of_lt hv hlt]
    exact Decimal.isNumeral_positional _ _
  · rw [text_single_of_not_lt hv (not_lt.mpr hge)]
    exact isNumeral_text_floating hv

/-- An ordinate that is rounded out of range is written as the word for infinity. -/
theorem text_fixed_of_overflows {n : UInt32} {v : Ordinate} (hv : v.isFinite = true)
    (h : (fixed n).Overflows v) : (fixed n).text v = withSign v.negative "inf".toList := by
  have hn : (fixed n).maxDigits < 17 := h.2.1
  have hround := roundDigits_eq hn h.magnitude_pos
  rw [overflows_fixed_iff n hv, hround, Ordinate.isFinite,
    Ordinate.magnitude_ofMagnitude (Ordinate.nearest_lt_signWeight _), decide_eq_false_iff_not] at h
  have hinf : format.nearest (Decimal.ofRat (fixed n).maxDigits (format.value v.magnitude)).value =
      format.infinity :=
    Nat.le_antisymm (format.nearest_le_infinity _) (not_lt.mp h)
  rw [hinf] at hround
  have hmag := Ordinate.magnitude_ofMagnitude Ordinate.infinity_lt_signWeight v.negative
  have hneg := Ordinate.negative_ofMagnitude Ordinate.infinity_lt_signWeight v.negative
  rw [text_of_isFinite hv, finiteText, hround, shortestText, hneg, Ordinate.isInfinite, hmag]
  rfl

/-- **A finite ordinate is written as a plain numeral, unless it is rounded out of range**, which
only a fixed precision does; then it is written as the word for infinity. -/
theorem text_isNumeral_iff (p : Precision) {v : Ordinate} (hv : v.isFinite = true) :
    (IsNumeral (p.text v) ↔ ¬ p.Overflows v) ∧
      (p.Overflows v → p.text v = withSign v.negative "inf".toList) := by
  cases p with
  | floating =>
    have hnot : ¬ floating.Overflows v := fun ⟨⟨_, h⟩, _⟩ => nomatch h
    exact ⟨iff_of_true (isNumeral_text_floating hv) hnot, fun h => absurd h hnot⟩
  | single =>
    have hnot : ¬ single.Overflows v := fun ⟨⟨_, h⟩, _⟩ => nomatch h
    exact ⟨iff_of_true (isNumeral_text_single hv) hnot, fun h => absurd h hnot⟩
  | fixed n =>
    have hword : (fixed n).Overflows v → (fixed n).text v = withSign v.negative "inf".toList :=
      text_fixed_of_overflows hv
    refine ⟨⟨fun h hover => not_isNumeral_inf v.negative (hword hover ▸ h), fun h => ?_⟩, hword⟩
    rw [overflows_fixed_iff n hv, Bool.not_eq_false] at h
    rw [text_of_isFinite hv, finiteText]
    exact isNumeral_shortestText h

/-- The largest finite ordinate keeps its place with six digits and loses it with five. -/
theorem text_isNumeral_iff_largest :
    let v : Ordinate := ⟨0x7fefffffffffffff⟩
    IsNumeral ((fixed 6).text v) ∧ (fixed 5).text v = "inf".toList := by
  intro v
  have hv : v.isFinite = true := by decide
  constructor
  · refine (text_isNumeral_iff (fixed 6) hv).1.mpr ?_
    rw [overflows_fixed_iff 6 hv]
    decide +kernel
  · refine (text_isNumeral_iff (fixed 5) hv).2 ?_
    rw [overflows_fixed_iff 5 hv]
    decide +kernel

/-- Not every finite ordinate is written as a numeral under every precision: with one digit the
largest one rounds to `2 · 10 ^ 308`. -/
theorem not_forall_text_isNumeral :
    ¬ ∀ (p : Precision) (v : Ordinate), v.isFinite = true → IsNumeral (p.text v) := by
  intro h
  have hnumeral := h (fixed 1) ⟨0x7fefffffffffffff⟩ (by decide)
  have hword : (fixed 1).text ⟨0x7fefffffffffffff⟩ = withSign false "inf".toList := by
    decide +kernel
  exact not_isNumeral_inf false (hword ▸ hnumeral)

end Precision

end LatLonText
