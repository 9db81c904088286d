/-
# Shortest texts are faithful, and no shorter text is

The significant digits of a text are its digits without the zeros in front of the
first other digit and behind the last. However a number is spelled, it can be
written with `n` digits exactly if its text has no more significant ones
(`hasDigits_iff`), so counting characters and counting digits of a number come to
the same.

Under floating precision the text of a finite ordinate denotes a decimal whose
nearest ordinate it is, and under single precision one whose nearest magnitude of
that format is the one nearest to the ordinate; no decimal of fewer significant
digits does (`Precision.text_faithful_and_shortest`).

Key definitions: `significantDigits`, `ShortestFor`.
Key theorems: `hasDigits_iff`, `Precision.text_faithful_and_shortest`.
-/
import LatLonText.Proofs.Reading
import Mathlib.Data.List.DropRight

namespace LatLonText

open Literal (digitsValue digitsValue_append)
open Decimal (numeral)

/-! ### Digits without the zeros at their ends -/

/-- A list of digits without the zeros in front of the first other digit and behind the last. -/
def trimZeros (ds : List Char) : List Char :=
  (ds.dropWhile (· == '0')).rdropWhile (· == '0')

/-- How many significant digits a text has. -/
def significantDigits (cs : List Char) : Nat :=
  (trimZeros (cs.filter Char.isDigit)).length

theorem digitsValue_singleton (c : Char) : digitsValue [c] = c.toNat - 48 := by
  simp [digitsValue]

theorem digitsValue_replicate_zero (k : Nat) : digitsValue (List.replicate k '0') = 0 := by
  induction k with
  | zero => rfl
  | succ k ih =>
    rw [List.replicate_succ', digitsValue_append, ih, digitsValue_singleton]
    rfl

theorem digit_lt {c : Char} (h : c.isDigit = true) : c.toNat - 48 < 10 := by
  simp only [Char.isDigit, Bool.and_eq_true, decide_eq_true_eq, UInt32.le_iff_toNat_le] at h
  have : c.toNat ≤ 57 := h.2
  omega

theorem digit_pos {c : Char} (h : c.isDigit = true) (hc : c ≠ '0') : 0 < c.toNat - 48 := by
  simp only [Char.isDigit, Bool.and_eq_true, decide_eq_true_eq, UInt32.le_iff_toNat_le] at h
  have hlow : 48 ≤ c.toNat := h.1
  have hne : c.toNat ≠ 48 := fun heq => hc (Char.toNat_inj.mp heq)
  omega

theorem digitsValue_lt : ∀ {ds : List Char}, (∀ c ∈ ds, c.isDigit = true) →
    digitsValue ds < 10 ^ ds.length
  | [], _ => by decide
  | c :: ds, h => by
    obtain ⟨hc, hds⟩ := List.forall_mem_cons.mp h
    have hlt := digitsValue_lt hds
    have hdigit := digit_lt hc
    have hstep : (c.toNat - 48) * 10 ^ ds.length ≤ 9 * 10 ^ ds.length :=
      Nat.mul_le_mul_right _ (by omega)
    rw [← List.singleton_append, digitsValue_append, digitsValue_singleton, List.singleton_append,
      List.length_cons, pow_succ]
    omega

/-- Zeros that a list loses at its ends change its value by a power of ten. -/
theorem digitsValue_trimZeros (ds : List Char) :
    ∃ k, digitsValue ds = digitsValue (trimZeros ds) * 10 ^ k := by
  have hzeros : ∀ {l : List Char}, (∀ c ∈ l, (c == '0') = true) → l = List.replicate l.length '0' :=
    fun h => List.eq_replicate_of_mem fun c hc => beq_iff_eq.mp (h c hc)
  have hfront := hzeros fun c hc => List.mem_takeWhile_imp (p := (· == '0')) (l := ds) hc
  set rest := ds.dropWhile (· == '0') with hrest
  have hback := hzeros fun c hc => List.mem_rtakeWhile_imp (p := (· == '0')) (l := rest) hc
  refine ⟨(rest.rtakeWhile (· == '0')).length, ?_⟩
  have hds : digitsValue ds = digitsValue rest := by
    conv_lhs => rw [← List.takeWhile_append_dropWhile (p := (· == '0')) (l := ds)]
    rw [digitsValue_append, hfront, digitsValue_replicate_zero, Nat.zero_mul, Nat.zero_add]
  have hrest' : digitsValue rest =
      digitsValue (trimZeros ds) * 10 ^ (rest.rtakeWhile (· == '0')).length := by
    conv_lhs => rw [← List.rdropWhile_append_rtakeWhile (p := (· == '0')) (l := rest)]
    rw [digitsValue_append, hback, digitsValue_replicate_zero, Nat.add_zero,
      List.length_replicate]
    rfl
  exact hds.trans hrest'

theorem mem_of_mem_trimZeros {ds : List Char} {c : Char} (h : c ∈ trimZeros ds) : c ∈ ds :=
  (List.dropWhile_sublist _).subset ((List.rdropWhile_prefix _ _).subset h)

/-- Without the zeros at its ends, a list that is not empty begins with another digit. -/
theorem head_trimZeros {ds : List Char} {c : Char} {cs : List Char} (h : trimZeros ds = c :: cs) :
    c ≠ '0' := by
  obtain ⟨rest, hrest⟩ : trimZeros ds <+: ds.dropWhile (· == '0') := List.rdropWhile_prefix _ _
  rw [h, List.cons_append] at hrest
  have hne : ds.dropWhile (· == '0') ≠ [] := by simp [← hrest]
  have hhead := List.head_dropWhile_not (· == '0') hne
  simpa [← hrest] using hhead

/-- And it ends with another digit. -/
theorem getLast_trimZeros {ds : List Char} (h : trimZeros ds ≠ []) :
    (trimZeros ds).getLast h ≠ '0' := by
  have hlast := List.rdropWhile_last_not (· == '0') (ds.dropWhile (· == '0')) h
  exact fun heq => hlast (beq_iff_eq.mpr heq)

section Digits

variable {ds : List Char} (hds : ∀ c ∈ ds, c.isDigit = true)
include hds

theorem isDigit_of_mem_trimZeros : ∀ c ∈ trimZeros ds, c.isDigit = true :=
  fun c hc => hds c (mem_of_mem_trimZeros hc)

/-- So its value has as many digits as the list. -/
theorem pow_le_digitsValue_trimZeros {c : Char} {cs : List Char} (h : trimZeros ds = c :: cs) :
    10 ^ cs.length ≤ digitsValue (trimZeros ds) := by
  have hc := isDigit_of_mem_trimZeros hds c (by simp [h])
  have hpos := digit_pos hc (head_trimZeros h)
  rw [h, ← List.singleton_append, digitsValue_append, digitsValue_singleton]
  exact (Nat.le_mul_of_pos_left _ hpos).trans (Nat.le_add_right _ _)

/-- And it is no multiple of ten. -/
theorem digitsValue_trimZeros_mod (h : trimZeros ds ≠ []) :
    digitsValue (trimZeros ds) % 10 ≠ 0 := by
  have hc := isDigit_of_mem_trimZeros hds _ (List.getLast_mem h)
  have hpos := digit_pos hc (getLast_trimZeros h)
  have hlt := digit_lt hc
  rw [← List.dropLast_append_getLast h, digitsValue_append, digitsValue_singleton,
    List.length_singleton]
  omega

end Digits

/-! ### Digits of a text and digits of a number -/

/-- Of the decimals of one number the one that does not end in zero has the fewest units. -/
theorem Decimal.digits_le_of_value_eq {d e : Decimal} (he : e.digits % 10 ≠ 0)
    (h : d.value = e.value) : e.digits ≤ d.digits := by
  have hexp := exponent_le_of_value_eq he h
  obtain ⟨j, hj⟩ : ∃ j : Nat, e.exponent = j + d.exponent :=
    ⟨(e.exponent - d.exponent).toNat, by omega⟩
  have hunit : (10 : Rat) ^ d.exponent ≠ 0 := zpow_ne_zero _ (by norm_num)
  have hdigits : (d.digits : Rat) = (e.digits * 10 ^ j : Nat) := by
    refine mul_right_cancel₀ hunit ?_
    calc (d.digits : Rat) * (10 : Rat) ^ d.exponent = e.value := h
      _ = (e.digits * 10 ^ j : Nat) * (10 : Rat) ^ d.exponent := by
        rw [value, hj, ← ten_zpow_mul, zpow_natCast]
        push_cast
        ring
  have hnat : d.digits = e.digits * 10 ^ j := by exact_mod_cast hdigits
  rw [hnat]
  exact Nat.le_mul_of_pos_right _ (by positivity)

/-- **The digits that are counted are those that are needed.** A number spelled by digits and a
power of ten can be written with `n` digits if and only if it is spelled with no more significant
ones. -/
theorem hasDigits_iff {ds : List Char} (hds : ∀ c ∈ ds, c.isDigit = true) (e : Int) {n : Nat} :
    HasDigits n (digitsValue ds * (10 : Rat) ^ e) ↔ (trimZeros ds).length ≤ n := by
  obtain ⟨k, hk⟩ := digitsValue_trimZeros ds
  have hvalue : (digitsValue ds : Rat) * (10 : Rat) ^ e =
      (Decimal.mk (digitsValue (trimZeros ds)) (k + e)).value := by
    rw [hk, Decimal.value, ← ten_zpow_mul, zpow_natCast]
    push_cast
    ring
  rw [hvalue]
  constructor
  · rintro ⟨d, hd, hdv⟩
    cases hcore : trimZeros ds with
    | nil => exact Nat.zero_le n
    | cons c cs =>
      have hmod := digitsValue_trimZeros_mod hds (by simp [hcore])
      have hlt : 10 ^ cs.length < 10 ^ n :=
        (pow_le_digitsValue_trimZeros hds hcore).trans_lt
          ((Decimal.digits_le_of_value_eq hmod hdv).trans_lt hd)
      exact (Nat.pow_lt_pow_iff_right (by norm_num)).mp hlt
  · intro h
    have hlt := digitsValue_lt (isDigit_of_mem_trimZeros hds)
    exact ⟨_, hlt.trans_le (Nat.pow_le_pow_right (by norm_num) h), rfl⟩

/-- A decimal needs the significant digits of its numeral. -/
theorem Decimal.hasDigits_iff_numeral (d : Decimal) {n : Nat} :
    HasDigits n d.value ↔ significantDigits (numeral d.digits) ≤ n := by
  have hdigits : ∀ c ∈ numeral d.digits, c.isDigit = true := fun _ => isDigit_of_mem_numeral
  have hfilter : (numeral d.digits).filter Char.isDigit = numeral d.digits :=
    List.filter_eq_self.mpr hdigits
  have h := hasDigits_iff hdigits d.exponent (n := n)
  rw [digitsValue_numeral] at h
  rw [significantDigits, hfilter]
  exact h

theorem filter_withSign (negative : Bool) (cs : List Char) :
    (Precision.withSign negative cs).filter Char.isDigit = cs.filter Char.isDigit := by
  cases negative
  · rfl
  · exact List.filter_cons_of_neg (by decide)

/-- A number needs the significant digits of its text. -/
theorem Decimal.hasDigits_iff_text (negative : Bool) (d : Decimal) {n : Nat} :
    HasDigits n d.value ↔ significantDigits (Precision.withSign negative d.positional) ≤ n := by
  rw [significantDigits, filter_withSign]
  rcases d.positional_cases with ⟨k, htext, hvalue⟩ | ⟨k, places, htext, hplaces, hvalue⟩
  · have hdigits : ∀ c ∈ numeral k, c.isDigit = true := fun _ => isDigit_of_mem_numeral
    rw [htext, List.filter_eq_self.mpr hdigits, ← hasDigits_iff hdigits 0, digitsValue_numeral,
      hvalue, zpow_zero, mul_one]
  · have hdigits : ∀ c ∈ numeral k ++ places, c.isDigit = true := by
      intro c hc
      rcases List.mem_append.mp hc with hc | hc
      · exact isDigit_of_mem_numeral hc
      · exact hplaces c hc
    have hfilter : (numeral k ++ '.' :: places).filter Char.isDigit = numeral k ++ places := by
      rw [List.filter_append, List.filter_cons_of_neg (by decide), ← List.filter_append]
      exact List.filter_eq_self.mpr hdigits
    rw [htext, hfilter, ← hasDigits_iff hdigits (-(places.length : Int)), digitsValue_append,
      digitsValue_numeral, hvalue]

/-! ### Shortest texts -/

/-- Whether a text stands for a magnitude in as few digits as can be: it is read as a decimal, with
the sign asked for, to which the magnitude is the nearest, and it has no more significant digits
than any such decimal. -/
structure ShortestFor (f : BinaryFormat) (negative : Bool) (m : Nat) (cs : List Char) : Prop where
  /-- What the text denotes rounds to the magnitude. -/
  reads : ∃ d : Decimal, Literal.read cs = some (.finite negative d) ∧ f.IsNearest d.value m
  /-- Nothing with fewer digits does. -/
  fewest : ∀ d : Decimal, f.IsNearest d.value m →
    significantDigits cs ≤ significantDigits (numeral d.digits)

namespace BinaryFormat

variable {f : BinaryFormat}

/-- With digits enough to outnumber the significands, the shortest decimal has no more. -/
theorem hasDigits_shortest_of_lt_pow (hf : 0 < f.fractionBits) {n : Nat} (hn : n + 1 ≤ enoughDigits)
    (hdigits : 2 ^ (f.fractionBits + 1) < 10 ^ n) {m : Nat} (hm0 : 0 < m) (hm : m < f.infinity) :
    HasDigits (n + 1) (f.shortest m).value := by
  obtain ⟨d, hd⟩ := Option.isSome_iff_exists.mp (onGrid?_isSome hf hm0 hm hdigits)
  have hback := nearest_value_of_onGrid? hd
  have hfew := hasDigits_of_onGrid? (Nat.succ_pos n) hm0 hd
  have hshort := hasDigits_shortest hf hn hfew (hback ▸ hm0) (hback ▸ hm)
  rwa [hback] at hshort

/-- Seventeen digits are enough for the shortest decimal. -/
theorem hasDigits_shortest_enough (hf : 0 < f.fractionBits)
    (hdigits : 2 ^ (f.fractionBits + 1) < 10 ^ 16) {m : Nat} (hm0 : 0 < m) (hm : m < f.infinity) :
    HasDigits enoughDigits (f.shortest m).value :=
  hasDigits_shortest_of_lt_pow hf le_rfl hdigits hm0 hm

/-- **The text of a shortest decimal is shortest**, among the texts of all decimals that round to
the magnitude. -/
theorem shortestFor_shortest (hf : 0 < f.fractionBits)
    (hdigits : 2 ^ (f.fractionBits + 1) < 10 ^ 16) {m : Nat} (hm : m < f.infinity)
    (negative : Bool) :
    ShortestFor f negative m (Precision.withSign negative (f.shortest m).positional) := by
  have hback := nearest_value_shortest hf hdigits hm
  refine ⟨?_, fun d hd => ?_⟩
  · obtain ⟨e, hread, hvalue⟩ := Literal.read_positional negative (f.shortest m)
    exact ⟨e, hread, (isNearest_iff hf).mpr (hvalue ▸ hback)⟩
  · rw [← Decimal.hasDigits_iff_text]
    rw [isNearest_iff hf] at hd
    rcases Nat.eq_zero_or_pos m with rfl | hm0
    · rw [value_shortest_zero]
      exact hasDigits_zero _
    have hown : HasDigits (significantDigits (numeral d.digits)) d.value :=
      d.hasDigits_iff_numeral.mpr le_rfl
    rcases Nat.le_total (significantDigits (numeral d.digits)) enoughDigits with hle | hge
    · have hshort := hasDigits_shortest hf hle hown (hd ▸ hm0) (hd ▸ hm)
      rwa [hd] at hshort
    · exact (hasDigits_shortest_enough hf hdigits hm0 hm).mono hge

end BinaryFormat

namespace Precision

open Ordinate (format)
open BinaryFormat (binary32)

theorem text_floating_eq {v : Ordinate} (hv : v.isFinite = true) :
    floating.text v = shortestText v :=
  text_of_isFinite hv floating

theorem shortestText_eq {v : Ordinate} (hv : v.isFinite = true) :
    shortestText v = withSign v.negative (format.shortest v.magnitude).positional := by
  have h := shortestText_ofMagnitude (Ordinate.magnitude_lt_infinity hv) v.negative
  rwa [Ordinate.ofMagnitude_self] at h

/-- In the range of single precision an ordinate is written as its nearest magnitude there. -/
theorem text_single_of_lt {v : Ordinate} (hv : v.isFinite = true)
    (h : narrow v < binary32.infinity) :
    single.text v = withSign v.negative (binary32.shortest (narrow v)).positional := by
  rw [text_of_isFinite hv, finiteText, if_pos h]

/-- Beyond it, in full. -/
theorem text_single_of_not_lt {v : Ordinate} (hv : v.isFinite = true)
    (h : ¬ narrow v < binary32.infinity) : single.text v = floating.text v := by
  rw [text_of_isFinite hv, finiteText, if_neg h, text_floating_eq hv]

/-- **Floating and single precision write faithful and shortest texts.** The floating text of a
finite ordinate reads back as that ordinate, bit for bit; the single text stands for the magnitude
of single precision nearest to it, with its sign, or is the floating text where that is infinity;
and neither could do with fewer significant digits. -/
theorem text_faithful_and_shortest {v : Ordinate} (hv : v.isFinite = true) :
    Ordinate.ofText? (floating.text v) = some v ∧
      ShortestFor format v.negative v.magnitude (floating.text v) ∧
      binary32.IsNearest |v.toRat| (narrow v) ∧
      (narrow v < binary32.infinity →
        ShortestFor binary32 v.negative (narrow v) (single.text v)) ∧
      (narrow v = binary32.infinity → single.text v = floating.text v) := by
  have hm := Ordinate.magnitude_lt_infinity hv
  refine ⟨?_, ?_, ?_, fun h => ?_, fun h => ?_⟩
  · rw [text_floating_eq hv, Ordinate.ofText?_shortestText hv]
  · rw [text_floating_eq hv, shortestText_eq hv]
    exact BinaryFormat.shortestFor_shortest (by decide) (by decide) hm _
  · rw [Ordinate.abs_toRat]
    exact BinaryFormat.isNearest_nearest (by decide) _
  · rw [text_single_of_lt hv h]
    exact BinaryFormat.shortestFor_shortest (by decide) (by decide) h _
  · exact text_single_of_not_lt hv (by omega)

/-- A third has sixteen digits in double precision and eight in single precision. -/
theorem text_faithful_and_shortest_third :
    let v : Ordinate := ⟨0x3fd5555555555555⟩
    floating.text v = "0.3333333333333333".toList ∧ single.text v = "0.33333334".toList ∧
      Ordinate.ofText? (floating.text v) = some v ∧
      ShortestFor format v.negative v.magnitude (floating.text v) ∧
      ShortestFor binary32 v.negative (narrow v) (single.text v) := by
  intro v
  have h := text_faithful_and_shortest (v := v) (by decide)
  exact ⟨by decide +kernel, by decide +kernel, h.1, h.2.1, h.2.2.2.1 (by decide +kernel)⟩

end Precision

end LatLonText
