/-
# Positional text and what it reads as

A decimal in positional notation is a numeral, or a numeral, a point and
digits, and either way spells the value of the decimal (`positional_cases`). A
number literal of this form is read as a decimal of the value it spells
(`Literal.readUnsigned_positional`), so a text has one value: decimals that are
written alike are equal (`value_eq_of_positional_eq`). And a value has one text,
since trimming leaves one decimal of it (`positional_eq_of_value_eq`).

Key theorems: `Decimal.positional_cases`, `Decimal.trim_eq_of_value_eq`,
`Literal.readUnsigned_positional`, `Decimal.value_eq_of_positional_eq`.
-/
import LatLonText.Decimal.Literal
import LatLonText.Proofs.Rounding
import Mathlib.Data.List.TakeWhile

namespace LatLonText

namespace Decimal

/-! ### Trimming -/

theorem value_trimWithin : ∀ (limit : Nat) (d : Decimal), (trimWithin limit d).value = d.value
  | 0, _ => rfl
  | limit + 1, d => by
    unfold trimWithin
    split
    · rename_i h
      rw [value_trimWithin limit]
      have hd : d.digits = 10 * (d.digits / 10) := by omega
      simp only [value]
      rw [zpow_add₀ (by norm_num)]
      conv_rhs => rw [hd]
      push_cast; ring
    · rfl

/-- The same number. -/
theorem value_trim (d : Decimal) : d.trim.value = d.value := by
  unfold trim
  split
  · rename_i h
    simp [value, h]
  · exact value_trimWithin _ d

/-- With steps for all digits but the first, no zero is left at the end. -/
theorem digits_trimWithin : ∀ (limit : Nat) (d : Decimal), d.digits ≠ 0 →
    d.digits < 10 ^ (limit + 1) → (trimWithin limit d).digits % 10 ≠ 0
  | 0, d, h0, hlt => by
    unfold trimWithin
    omega
  | limit + 1, d, h0, hlt => by
    unfold trimWithin
    split
    · have hdiv : d.digits / 10 < 10 ^ (limit + 1) := by
        rw [Nat.div_lt_iff_lt_mul (by norm_num)]
        rwa [pow_succ] at hlt
      exact digits_trimWithin limit _ (by dsimp only; omega) hdiv
    · assumption

theorem digits_trim {d : Decimal} (h : d.digits ≠ 0) : d.trim.digits % 10 ≠ 0 := by
  rw [trim, if_neg h]
  refine digits_trimWithin _ d h ?_
  rw [decimalLogNat_eq_log]
  exact Nat.lt_pow_succ_log_self (by norm_num) _

theorem value_eq_zero_iff (d : Decimal) : d.value = 0 ↔ d.digits = 0 := by
  have hunit : (10 : Rat) ^ d.exponent ≠ 0 := zpow_ne_zero _ (by norm_num)
  simp [value, hunit]

/-- A number that ends with another digit than zero has no coarser unit. -/
theorem exponent_le_of_value_eq {d e : Decimal} (he : e.digits % 10 ≠ 0)
    (h : d.value = e.value) : d.exponent ≤ e.exponent := by
  by_contra hlt
  obtain ⟨j, hj⟩ : ∃ j : Nat, d.exponent = e.exponent + ((j + 1 : Nat) : Int) :=
    ⟨(d.exponent - e.exponent - 1).toNat, by omega⟩
  have hunit : (10 : Rat) ^ e.exponent ≠ 0 := zpow_ne_zero _ (by norm_num)
  have hdigits : (d.digits : Rat) * 10 ^ (j + 1) = e.digits := by
    refine mul_right_cancel₀ hunit ?_
    calc (d.digits : Rat) * 10 ^ (j + 1) * (10 : Rat) ^ e.exponent = d.value := by
          rw [value, hj, zpow_add₀ (by norm_num), zpow_natCast]
          ring
      _ = e.digits * (10 : Rat) ^ e.exponent := h
  have hnat : d.digits * 10 ^ (j + 1) = e.digits := by exact_mod_cast hdigits
  rw [← hnat, pow_succ, ← mul_assoc, Nat.mul_mod_left] at he
  exact he rfl

/-- **Equal numbers are trimmed alike.** -/
theorem trim_eq_of_value_eq {d e : Decimal} (h : d.value = e.value) : d.trim = e.trim := by
  by_cases h0 : d.digits = 0
  · have he0 : e.digits = 0 := by rw [← value_eq_zero_iff, ← h, value_eq_zero_iff, h0]
    rw [trim, trim, if_pos h0, if_pos he0]
  · have he0 : e.digits ≠ 0 := by rwa [ne_eq, ← value_eq_zero_iff, ← h, value_eq_zero_iff]
    have htrim : d.trim.value = e.trim.value := by rw [value_trim, value_trim, h]
    have hexp : d.trim.exponent = e.trim.exponent :=
      le_antisymm (exponent_le_of_value_eq (digits_trim he0) htrim)
        (exponent_le_of_value_eq (digits_trim h0) htrim.symm)
    have hunit : (10 : Rat) ^ e.trim.exponent ≠ 0 := zpow_ne_zero _ (by norm_num)
    have hdigits : (d.trim.digits : Rat) = e.trim.digits := by
      rw [value, value, hexp] at htrim
      exact mul_right_cancel₀ hunit htrim
    cases hd : d.trim
    cases he : e.trim
    rw [hd, he] at hexp hdigits
    simp only [mk.injEq]
    exact ⟨by exact_mod_cast hdigits, hexp⟩

/-- So equal numbers are written alike. -/
theorem positional_eq_of_value_eq {d e : Decimal} (h : d.value = e.value) :
    d.positional = e.positional := by
  unfold positional
  rw [trim_eq_of_value_eq h]

/-! ### Numerals -/

theorem isDigit_of_mem_numeral {n : Nat} {c : Char} (h : c ∈ numeral n) : c.isDigit = true :=
  Nat.isDigit_of_mem_toDigits (by norm_num) (by norm_num) h

theorem numeral_ne_nil (n : Nat) : numeral n ≠ [] := Nat.toDigits_ne_nil

theorem digitsValue_numeral (n : Nat) : Literal.digitsValue (numeral n) = n :=
  Nat.ofDigitChars_ten_toDigits

/-- Zeros in front change nothing. -/
theorem digitsValue_leftpad (k n : Nat) :
    Literal.digitsValue ((numeral n).leftpad k '0') = n := by
  have h : Nat.ofDigitChars 10 ((numeral n).leftpad k '0') 0 = n := by
    rw [List.leftpad, Nat.ofDigitChars_append, Nat.ofDigitChars_replicate_zero]
    exact digitsValue_numeral n
  exact h

theorem isDigit_of_mem_leftpad {k n : Nat} {c : Char} (h : c ∈ (numeral n).leftpad k '0') :
    c.isDigit = true := by
  rw [List.leftpad, List.mem_append] at h
  rcases h with h | h
  · rw [List.eq_of_mem_replicate h]; rfl
  · exact isDigit_of_mem_numeral h

theorem length_leftpad_numeral {k n : Nat} (hk : 0 < k) (hn : n < 10 ^ k) :
    ((numeral n).leftpad k '0').length = k := by
  have := (Nat.length_toDigits_le_iff (by norm_num) hk).mpr hn
  rw [List.length_leftpad]
  exact Nat.max_eq_left this

/-! ### Positional notation -/

/-- **What positional notation is.** A numeral with the value of the decimal, or a numeral and
decimal places that make up its value. -/
theorem positional_cases (d : Decimal) :
    (∃ n : Nat, d.positional = numeral n ∧ d.value = n) ∨
      ∃ (n : Nat) (places : List Char), d.positional = numeral n ++ '.' :: places ∧
        (∀ c ∈ places, c.isDigit = true) ∧
        d.value = (n * 10 ^ places.length + Literal.digitsValue places : Nat) *
          (10 : Rat) ^ (-(places.length : Int)) := by
  unfold positional
  simp only
  rw [← value_trim d]
  generalize d.trim = t
  split
  · rename_i he
    left
    refine ⟨_, rfl, ?_⟩
    obtain ⟨e, he'⟩ := Int.eq_ofNat_of_zero_le he
    have hpow : (Nat.pow 10 e : Nat) = 10 ^ e := rfl
    rw [value, he', Int.toNat_natCast, zpow_natCast, hpow]
    push_cast; rfl
  · rename_i he
    right
    set k := (-t.exponent).toNat with hk
    have hk0 : 0 < k := by omega
    have hlen := length_leftpad_numeral hk0 (n := t.digits % 10 ^ k) (Nat.mod_lt _ (by positivity))
    refine ⟨_, _, rfl, fun c hc => isDigit_of_mem_leftpad hc, ?_⟩
    have hpow : (Nat.pow 10 k : Nat) = 10 ^ k := rfl
    rw [hpow, hlen, digitsValue_leftpad, Nat.mul_comm, Nat.div_add_mod, value]
    congr 2
    omega

theorem head_positional (d : Decimal) : ∃ c cs, d.positional = c :: cs ∧ c.isDigit = true := by
  have hnum : ∀ n rest, ∃ c cs, numeral n ++ rest = c :: cs ∧ c.isDigit = true := fun n rest => by
    obtain ⟨c, cs, h⟩ := List.exists_cons_of_ne_nil (numeral_ne_nil n)
    exact ⟨c, cs ++ rest, by rw [h]; rfl, isDigit_of_mem_numeral (h ▸ List.mem_cons_self)⟩
  rcases d.positional_cases with ⟨n, h, -⟩ | ⟨n, places, h, -⟩
  · rw [h]; simpa using hnum n []
  · rw [h]; exact hnum n _

theorem of_mem_positional {d : Decimal} {c : Char} (h : c ∈ d.positional) :
    c.isDigit = true ∨ c = '.' := by
  rcases d.positional_cases with ⟨n, hd, -⟩ | ⟨n, places, hd, hplaces, -⟩
  · exact .inl (isDigit_of_mem_numeral (hd ▸ h))
  · rw [hd, List.mem_append, List.mem_cons] at h
    rcases h with h | h | h
    · exact .inl (isDigit_of_mem_numeral h)
    · exact .inr h
    · exact .inl (hplaces c h)

end Decimal

/-! ### Reading -/

namespace Literal

open Decimal

theorem digitsValue_append (ds es : List Char) :
    digitsValue (ds ++ es) = digitsValue ds * 10 ^ es.length + digitsValue es := by
  have h : Nat.ofDigitChars 10 (ds ++ es) 0 =
      10 ^ es.length * Nat.ofDigitChars 10 ds 0 + Nat.ofDigitChars 10 es 0 := by
    rw [Nat.ofDigitChars_append, Nat.ofDigitChars_eq_ofDigitChars_zero]
  rw [Nat.mul_comm]
  exact h

theorem decimal?_digits {ds : List Char} (hne : ds ≠ []) (h : ∀ c ∈ ds, c.isDigit = true) :
    decimal? ds = some ⟨digitsValue ds, 0⟩ := by
  have ht : ds.takeWhile Char.isDigit = ds := List.takeWhile_eq_self_iff.mpr h
  have hd : ds.dropWhile Char.isDigit = [] := List.dropWhile_eq_nil_iff.mpr h
  simp [decimal?, ht, hd, hne, exponent?]

theorem decimal?_point {ds places : List Char} (hne : ds ≠ []) (h : ∀ c ∈ ds, c.isDigit = true)
    (hp : ∀ c ∈ places, c.isDigit = true) :
    decimal? (ds ++ '.' :: places) = some ⟨digitsValue (ds ++ places), -(places.length : Int)⟩ := by
  have ht : (ds ++ '.' :: places).takeWhile Char.isDigit = ds := by
    rw [List.takeWhile_append_of_pos h]; simp
  have hd : (ds ++ '.' :: places).dropWhile Char.isDigit = '.' :: places := by
    rw [List.dropWhile_append_of_pos h]; simp
  have ht' : places.takeWhile Char.isDigit = places := List.takeWhile_eq_self_iff.mpr hp
  have hd' : places.dropWhile Char.isDigit = [] := List.dropWhile_eq_nil_iff.mpr hp
  simp [decimal?, ht, hd, ht', hd', hne, exponent?]

/-- A text that begins with a digit is none of the words. -/
theorem readUnsigned_of_isDigit {negative : Bool} {c : Char} {cs : List Char}
    (h : c.isDigit = true) :
    readUnsigned negative (c :: cs) = (decimal? (c :: cs)).map (.finite negative) := by
  have hlower : c.toLower = c := by
    simp only [Char.isDigit, Bool.and_eq_true, decide_eq_true_eq] at h
    refine dif_neg fun hupper => ?_
    exact absurd (UInt32.le_trans hupper.1 h.2) (by decide)
  have hne : ∀ x : Char, x.isDigit = false → c ≠ x := fun x hx heq => by simp [heq, hx] at h
  have hi := hne 'i' rfl
  have hn := hne 'n' rfl
  simp [readUnsigned, hlower, hi, hn]

/-- **Positional text is read** as a decimal of the same value. -/
theorem readUnsigned_positional (negative : Bool) (d : Decimal) :
    ∃ e : Decimal, readUnsigned negative d.positional = some (.finite negative e) ∧
      e.value = d.value := by
  obtain ⟨c, cs, hcons, hc⟩ := d.head_positional
  rw [hcons, readUnsigned_of_isDigit hc, ← hcons]
  rcases d.positional_cases with ⟨n, hd, hv⟩ | ⟨n, places, hd, hplaces, hv⟩
  · rw [hd, decimal?_digits (numeral_ne_nil n) fun _ => isDigit_of_mem_numeral]
    refine ⟨_, rfl, ?_⟩
    rw [hv, digitsValue_numeral]
    simp [value]
  · rw [hd, decimal?_point (numeral_ne_nil n) (fun _ => isDigit_of_mem_numeral) hplaces]
    refine ⟨_, rfl, ?_⟩
    rw [hv, digitsValue_append, digitsValue_numeral]
    rfl

end Literal

/-- Decimals that are written alike are equal. -/
theorem Decimal.value_eq_of_positional_eq {d e : Decimal} (h : d.positional = e.positional) :
    d.value = e.value := by
  obtain ⟨a, ha, hda⟩ := Literal.readUnsigned_positional false d
  obtain ⟨b, hb, heb⟩ := Literal.readUnsigned_positional false e
  rw [h, hb] at ha
  simp only [Option.some.injEq, Literal.finite.injEq, true_and] at ha
  rw [← hda, ← heb, ha]

end LatLonText
