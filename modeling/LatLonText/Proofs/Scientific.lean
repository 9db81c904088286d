/-
# Rounding by way of exponent notation

To round an ordinate to significant digits is to write it in exponent notation with
so many digits and to read the text back (`Ordinate.scientific`, `Ordinate.ofText?`).
`Ordinate.roundDigits` takes this way for few digits only: zero, and from seventeen
digits on every ordinate, it hands back as it is. That changes no result
(`Ordinate.scientific_reads_as_roundDigits`).

Exponent notation is read as the decimal it was written from
(`Literal.read_scientific`), so what is left is about numbers. Seventeen digits
outnumber the significands of double precision, so half a unit of the last digit is
too little to reach another magnitude (`BinaryFormat.nearest_eq_of_half_unit`). With
fewer digits another one may be reached, but a number keeps more than a half of
itself, and that is too much to become zero (`BinaryFormat.nearest_ofRat_pos`).

Key definitions: `Decimal.carried`, `Decimal.scientific`, `Ordinate.scientific`.
Key theorems: `Literal.read_scientific`, `BinaryFormat.nearest_ofRat_pos`,
`Ordinate.nearest_rounded`, `Ordinate.scientific_reads_as_roundDigits`.
-/
import LatLonText.Proofs.TextOrder

namespace LatLonText

open Precision (withSign)

/-! ### Exponent notation -/

/-- A whole number, with a minus sign if it is negative. -/
def signedNumeral : Int → List Char
  | .ofNat n => Decimal.numeral n
  | .negSucc n => '-' :: Decimal.numeral (n + 1)

/-- Digits with a point behind the first one, if there are more. -/
def pointed : List Char → List Char
  | first :: next :: others => first :: '.' :: next :: others
  | ds => ds

namespace Decimal

/-- A decimal that was rounded to `n` digits, with exactly so many. Where all nines were rounded up
there is one more, a zero, which goes into the exponent. The first digit of zero counts ones. -/
def carried (n : Nat) (d : Decimal) : Decimal :=
  if d.digits = 0 then ⟨0, 1 - (n : Int)⟩
  else if d.digits < 10 ^ n then d
  else ⟨d.digits / 10, d.exponent + 1⟩

/-- A decimal that was rounded to `n` digits, in exponent notation: the digits, with a point behind
the first, and the power of ten that the first one counts. -/
def scientific (n : Nat) (d : Decimal) : List Char :=
  pointed ((numeral (d.carried n).digits).leftpad n '0') ++
    'e' :: signedNumeral ((d.carried n).exponent + ((n : Int) - 1))

variable {n : Nat} {d : Decimal}

/-- The same number. -/
theorem value_carried (hn : 0 < n) (h : d.digits ≤ 10 ^ n) : (d.carried n).value = d.value := by
  unfold carried
  by_cases hzero : d.digits = 0
  · rw [if_pos hzero, (value_eq_zero_iff d).mpr hzero, value_eq_zero_iff]
  · rw [if_neg hzero]
    by_cases hlt : d.digits < 10 ^ n
    · rw [if_pos hlt]
    · rw [if_neg hlt]
      obtain ⟨k, rfl⟩ : ∃ k, n = k + 1 := ⟨n - 1, by omega⟩
      have hdigits : d.digits = 10 ^ k * 10 := by
        rw [← pow_succ]
        omega
      have hten : (10 : Rat) ^ (d.exponent + 1) = 10 * (10 : Rat) ^ d.exponent := by
        rw [zpow_add_one₀ (by norm_num), mul_comm]
      rw [value, value, hdigits, Nat.mul_div_cancel _ (by norm_num), hten]
      push_cast
      ring

theorem digits_carried_lt (h : d.digits ≤ 10 ^ n) : (d.carried n).digits < 10 ^ n := by
  have hpow : 0 < 10 ^ n := by positivity
  unfold carried
  by_cases hzero : d.digits = 0
  · rwa [if_pos hzero]
  · rw [if_neg hzero]
    by_cases hlt : d.digits < 10 ^ n
    · rwa [if_pos hlt]
    · rw [if_neg hlt]
      show d.digits / 10 < 10 ^ n
      omega

end Decimal

/-! ### Reading exponent notation -/

namespace Literal

open Decimal (numeral)

theorem wholeNumber?_numeral (n : Nat) : wholeNumber? (numeral n) = some n := by
  have hall : (numeral n).all Char.isDigit = true :=
    List.all_eq_true.mpr fun _ => Decimal.isDigit_of_mem_numeral
  have hne : (numeral n).isEmpty = false := by simp [Decimal.numeral_ne_nil n]
  simp [wholeNumber?, hall, hne, Decimal.digitsValue_numeral]

theorem exponent?_signedNumeral (e : Int) : exponent? ('e' :: signedNumeral e) = some e := by
  cases e with
  | negSucc n =>
    show (wholeNumber? (numeral (n + 1))).map (fun n => -(n : Int)) = some (.negSucc n)
    rw [wholeNumber?_numeral]
    rfl
  | ofNat n =>
    -- A numeral begins with a digit, so neither sign is taken off.
    have hdigit : ∀ c ds, numeral n = c :: ds → c.isDigit = true := fun c ds h =>
      Decimal.isDigit_of_mem_numeral (h ▸ List.mem_cons_self)
    simp only [exponent?, signedNumeral, decide_true, Bool.true_or, if_true]
    split
    · rename_i ds hminus
      exact absurd (hdigit '-' ds hminus) (by decide)
    · rename_i ds hplus
      exact absurd (hdigit '+' ds hplus) (by decide)
    · rw [wholeNumber?_numeral]
      rfl

/-- Digits with a point behind the first and an exponent at the end are read as the whole number of
the digits, in units of the last one. -/
theorem decimal?_pointed {ds : List Char} (hne : ds ≠ []) (h : ∀ c ∈ ds, c.isDigit = true)
    (es : List Char) :
    decimal? (pointed ds ++ 'e' :: es) = (exponent? ('e' :: es)).map fun e =>
      ⟨digitsValue ds, e - ((ds.length : Int) - 1)⟩ := by
  match ds, hne with
  | [c], _ =>
    have hc : c.isDigit = true := h c List.mem_cons_self
    simp [decimal?, pointed, hc]
  | c :: c' :: cs, _ =>
    obtain ⟨hc, hrest⟩ := List.forall_mem_cons.mp h
    have ht : (c' :: cs ++ 'e' :: es).takeWhile Char.isDigit = c' :: cs := by
      rw [List.takeWhile_append_of_pos hrest]; simp
    have hd : (c' :: cs ++ 'e' :: es).dropWhile Char.isDigit = 'e' :: es := by
      rw [List.dropWhile_append_of_pos hrest]; simp
    rw [List.cons_append] at ht hd
    simp [decimal?, pointed, hc, ht, hd]

theorem head_pointed {ds : List Char} (hne : ds ≠ []) (h : ∀ c ∈ ds, c.isDigit = true) :
    ∃ c cs, pointed ds = c :: cs ∧ c.isDigit = true := by
  match ds, hne with
  | [c], _ => exact ⟨c, [], rfl, h c List.mem_cons_self⟩
  | c :: c' :: cs, _ => exact ⟨c, _, rfl, h c List.mem_cons_self⟩

/-- **Exponent notation is read as the decimal it was written from.** -/
theorem read_scientific (negative : Bool) {n : Nat} (hn : 0 < n) {d : Decimal}
    (hd : d.digits ≤ 10 ^ n) :
    read (withSign negative (d.scientific n)) = some (.finite negative (d.carried n)) := by
  have hlen := Decimal.length_leftpad_numeral hn (Decimal.digits_carried_lt hd)
  have hvalue := Decimal.digitsValue_leftpad n (d.carried n).digits
  have hdigits : ∀ c ∈ (numeral (d.carried n).digits).leftpad n '0', c.isDigit = true :=
    fun _ => Decimal.isDigit_of_mem_leftpad
  have hne : (numeral (d.carried n).digits).leftpad n '0' ≠ [] :=
    List.ne_nil_of_length_pos (hlen.symm ▸ hn)
  obtain ⟨c, cs, hhead, hc⟩ := head_pointed hne hdigits
  have hdecimal := decimal?_pointed hne hdigits
    (signedNumeral ((d.carried n).exponent + ((n : Int) - 1)))
  rw [exponent?_signedNumeral, hlen, hvalue, Option.map_some, add_sub_cancel_right] at hdecimal
  rw [Decimal.scientific, hhead, List.cons_append, read_withSign negative hc,
    readUnsigned_of_isDigit hc, ← List.cons_append, ← hhead, hdecimal, Option.map_some]

/-- All nines rounded up to the next power of ten, and zero. -/
example : (Decimal.mk 1000 (-1)).scientific 3 = "1.00e2".toList ∧
    (Decimal.mk 0 7).scientific 3 = "0.00e0".toList := by
  decide

end Literal

/-! ### What rounding keeps -/

namespace BinaryFormat

variable {f : BinaryFormat}

/-- **Nothing is rounded to zero.** The least magnitude is one unit and zero takes up to half a
unit, but rounding keeps more than a half. -/
theorem nearest_ofRat_pos (hf : 0 < f.fractionBits) {n : Nat} (hn : 0 < n) {m : Nat} (hm0 : 0 < m)
    (hm : m < f.infinity) : 0 < f.nearest (Decimal.ofRat n (f.value m)).value := by
  have hkept := Decimal.lt_two_mul_ofRat hn (f.value_pos hm0)
  have hleast : f.value 1 ≤ f.value m := f.value_strictMono.monotone hm0
  have hmiddle : 2 * f.middle 0 = f.value 1 := by
    rw [middle, f.value_zero]
    ring
  by_contra hzero
  rcases (nearest_le_iff hf (by omega) _).mp (not_lt.mp hzero) with h | ⟨h, -⟩ <;> linarith

end BinaryFormat

/-! ### Rounding an ordinate -/

namespace Decimal

theorem digits_ofRat_zero (n : Nat) : (ofRat n 0).digits = 0 := by
  show roundHalfEven (0 * (10 : Rat) ^ (-unitExponent n 0)) = 0
  rw [zero_mul]
  exact roundHalfEven_natCast 0

theorem value_ofRat_zero (n : Nat) : (ofRat n 0).value = 0 :=
  (value_eq_zero_iff _).mpr (digits_ofRat_zero n)

end Decimal

namespace Ordinate

/-- The decimal that the magnitude of an ordinate is rounded to. -/
def rounded (n : Nat) (v : Ordinate) : Decimal :=
  Decimal.ofRat n (format.value v.magnitude)

/-- An ordinate in exponent notation with `n` significant digits. -/
def scientific (n : Nat) (v : Ordinate) : List Char :=
  withSign v.negative ((v.rounded n).scientific n)

theorem rounded_of_zero {v : Ordinate} (h : v.magnitude = 0) (n : Nat) :
    v.rounded n = Decimal.ofRat n 0 := by
  rw [rounded, h, BinaryFormat.value_zero]

theorem digits_rounded_le {n : Nat} (hn : 1 ≤ n) (v : Ordinate) :
    (v.rounded n).digits ≤ 10 ^ n := by
  by_cases hzero : v.magnitude = 0
  · rw [rounded_of_zero hzero, Decimal.digits_ofRat_zero]
    exact Nat.zero_le _
  · exact Decimal.digits_ofRat_le hn (format.value_pos (Nat.pos_of_ne_zero hzero))

theorem nearest_rounded_of_zero {v : Ordinate} (h : v.magnitude = 0) (n : Nat) :
    format.nearest (v.rounded n).value = v.magnitude := by
  rw [rounded_of_zero h, Decimal.value_ofRat_zero, h]
  rfl

/-- **Seventeen digits are enough** for every finite ordinate. -/
theorem nearest_rounded {v : Ordinate} (hv : v.isFinite = true) {n : Nat} (hn : 17 ≤ n) :
    format.nearest (v.rounded n).value = v.magnitude := by
  by_cases hzero : v.magnitude = 0
  · exact nearest_rounded_of_zero hzero n
  · have hpos : 0 < v.magnitude := Nat.pos_of_ne_zero hzero
    obtain ⟨k, rfl⟩ : ∃ k, n = k + 1 := ⟨n - 1, by omega⟩
    have hmany : 2 ^ (format.fractionBits + 1) < 10 ^ k := by
      calc 2 ^ (format.fractionBits + 1) < 10 ^ 16 := by decide
        _ ≤ 10 ^ k := Nat.pow_le_pow_right (by norm_num) (by omega)
    have hhalf := Decimal.two_mul_abs_sub_ofRat_le (k + 1) (format.value_pos hpos)
    rw [abs_sub_comm] at hhalf
    apply BinaryFormat.nearest_eq_of_half_unit (by decide) hpos (magnitude_lt_infinity hv) hmany
    show |(Decimal.ofRat (k + 1) (format.value v.magnitude)).value - _| ≤ _
    linarith

/-- **The shortcuts change nothing**: what is handed back as it is would come back so. -/
theorem roundDigits_eq_ofMagnitude {v : Ordinate} (hv : v.isFinite = true) (n : Nat) :
    v.roundDigits n = ofMagnitude v.negative (format.nearest (v.rounded n).value) := by
  by_cases hzero : v.magnitude = 0
  · rw [roundDigits_of_zero hzero, nearest_rounded_of_zero hzero, ofMagnitude_self]
  · by_cases hmany : 17 ≤ n
    · rw [roundDigits_of_enough hmany, nearest_rounded hv hmany, ofMagnitude_self]
    · exact Precision.roundDigits_eq (by omega) (Nat.pos_of_ne_zero hzero)

theorem magnitude_roundDigits {v : Ordinate} (hv : v.isFinite = true) (n : Nat) :
    (v.roundDigits n).magnitude = format.nearest (v.rounded n).value := by
  rw [roundDigits_eq_ofMagnitude hv, magnitude_ofMagnitude (nearest_lt_signWeight _)]

/-- The text in exponent notation is read as a decimal with the sign of the ordinate and the value
that its magnitude is rounded to. -/
theorem read_scientific {n : Nat} (hn : 1 ≤ n) (v : Ordinate) :
    ∃ d : Decimal, Literal.read (v.scientific n) = some (.finite v.negative d) ∧
      d.value = (v.rounded n).value :=
  ⟨_, Literal.read_scientific v.negative hn (digits_rounded_le hn v),
    Decimal.value_carried hn (digits_rounded_le hn v)⟩

/-- **Reading exponent notation back is rounding.** Written in exponent notation with `n` digits, a
finite ordinate is its exact number rounded to `n` significant digits, ties to the even digit. The
text is read as the ordinate nearest to that decimal, and this is what `roundDigits` gives, also
where it goes no such way: from seventeen digits on it is the ordinate itself, bit for bit. With any
count of digits the sign stays, and what is not zero does not become zero. -/
theorem scientific_reads_as_roundDigits {v : Ordinate} (hv : v.isFinite = true) {n : Nat}
    (hn : 1 ≤ n) :
    (∃ d : Decimal, Literal.read (v.scientific n) = some (.finite v.negative d) ∧
      (v.magnitude = 0 → d.value = 0) ∧
      (v.magnitude ≠ 0 → IsRounding n |v.toRat| d.value) ∧
      format.IsNearest d.value (v.roundDigits n).magnitude) ∧
    ofText? (v.scientific n) = some (v.roundDigits n) ∧
    (17 ≤ n → ofText? (v.scientific n) = some v) ∧
    (v.roundDigits n).negative = v.negative ∧
    (v.magnitude ≠ 0 → (v.roundDigits n).magnitude ≠ 0) := by
  obtain ⟨d, hread, hvalue⟩ := read_scientific hn v
  have hback : ofText? (v.scientific n) = some (v.roundDigits n) := by
    rw [ofText?, hread, Option.map_some, ofLiteral_finite, hvalue, ← roundDigits_eq_ofMagnitude hv]
  refine ⟨⟨d, hread, fun hzero => ?_, fun hne => ?_, ?_⟩, hback, fun hmany => ?_,
    Precision.negative_roundDigits n v, fun hne => ?_⟩
  · rw [hvalue, rounded_of_zero hzero, Decimal.value_ofRat_zero]
  · rw [hvalue, abs_toRat]
    exact Decimal.isRounding_ofRat hn (format.value_pos (Nat.pos_of_ne_zero hne))
  · rw [BinaryFormat.isNearest_iff (by decide), magnitude_roundDigits hv, hvalue]
  · rw [hback, roundDigits_of_enough hmany]
  · rw [magnitude_roundDigits hv]
    exact (BinaryFormat.nearest_ofRat_pos (by decide) hn (Nat.pos_of_ne_zero hne)
      (magnitude_lt_infinity hv)).ne'

/-- The double that `0.1 + 0.2` gives needs all seventeen digits: with sixteen it comes back as
another one. The negative ordinate next to zero keeps its place with a single digit. -/
theorem scientific_reads_as_roundDigits_sum :
    let sum : Ordinate := ⟨0x3fd3333333333334⟩
    let least : Ordinate := ⟨0x8000000000000001⟩
    sum.scientific 17 = "3.0000000000000004e-1".toList ∧
      sum.scientific 16 = "3.000000000000000e-1".toList ∧
      least.scientific 1 = "-5e-324".toList ∧
      ofText? (sum.scientific 17) = some sum ∧
      ofText? (sum.scientific 16) ≠ some sum ∧
      ofText? (least.scientific 1) = some (least.roundDigits 1) ∧
      (least.roundDigits 1).negative = true ∧ (least.roundDigits 1).magnitude ≠ 0 := by
  intro sum least
  have hsum := scientific_reads_as_roundDigits (v := sum) (n := 17) (by decide) (by decide)
  have hleast := scientific_reads_as_roundDigits (v := least) (n := 1) (by decide) le_rfl
  exact ⟨by decide +kernel, by decide +kernel, by decide +kernel, hsum.2.2.1 le_rfl,
    by decide +kernel, hleast.2.1, hleast.2.2.2.1, hleast.2.2.2.2 (by decide)⟩

end Ordinate

end LatLonText
