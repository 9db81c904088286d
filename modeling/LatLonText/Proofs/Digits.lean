/-
# Numbers of few significant digits

A number of at most `n` significant digits is a multiple of any power of ten up
to the unit of its own `n`-th digit (`HasDigits.exists_multiple`). Of two such
numbers the smaller one has the finer units, so they lie apart by more than an
`n`-digit fraction of it (`HasDigits.lt_mul_sub`).

Rounding to `n` significant digits is said without a procedure: the rounded number
is a multiple of the unit of the `n`-th digit, at most half a unit away, and an
even multiple if it is exactly half a unit away (`IsRounding`). There is one such
number (`IsRounding.unique`), and `Decimal.ofRat` finds it (`isRounding_ofRat`).

Key definitions: `HasDigits`, `IsRounding`.
Key theorems: `HasDigits.lt_mul_sub`, `hasDigits_of_le`, `IsRounding.unique`,
`Decimal.isRounding_ofRat`.
-/
import LatLonText.Proofs.Shortest

namespace LatLonText

/-! ### Powers of ten -/

theorem ten_zpow_mul (a b : Int) : (10 : Rat) ^ a * (10 : Rat) ^ b = (10 : Rat) ^ (a + b) :=
  (zpow_add₀ (by norm_num) a b).symm

theorem ten_zpow_le {a b : Int} (h : a ≤ b) : (10 : Rat) ^ a ≤ (10 : Rat) ^ b :=
  zpow_le_zpow_right₀ (by norm_num) h

/-- A power of ten that is at most a number is at most the one that the number starts with. -/
theorem le_decimalLog {x : Rat} (hx : 0 < x) {j : Int} (h : (10 : Rat) ^ j ≤ x) :
    j ≤ decimalLog x := by
  by_contra hlt
  have := lt_ten_zpow_decimalLog hx
  have := ten_zpow_le (show decimalLog x + 1 ≤ j by omega)
  linarith

/-- And a power of ten above a number is above it. -/
theorem decimalLog_lt {x : Rat} (hx : 0 < x) {j : Int} (h : x < (10 : Rat) ^ j) :
    decimalLog x < j := by
  by_contra hle
  have := ten_zpow_decimalLog_le hx
  have := ten_zpow_le (show j ≤ decimalLog x by omega)
  linarith

theorem decimalLog_mono {x y : Rat} (hx : 0 < x) (h : x ≤ y) : decimalLog x ≤ decimalLog y :=
  le_decimalLog (hx.trans_le h) ((ten_zpow_decimalLog_le hx).trans h)

/-- The end of the decade of a number is `10 ^ n` units of its `n`-th digit. -/
theorem Decimal.ten_zpow_eq_pow_mul_unit (n : Nat) (x : Rat) :
    (10 : Rat) ^ (decimalLog x + 1) = 10 ^ n * (10 : Rat) ^ unitExponent n x := by
  rw [← zpow_natCast, ten_zpow_mul, unitExponent]
  congr 1
  ring

/-! ### Numbers of few digits -/

/-- Whether a number can be written with at most `n` significant digits. -/
def HasDigits (n : Nat) (x : Rat) : Prop :=
  ∃ d : Decimal, d.digits < 10 ^ n ∧ d.value = x

theorem hasDigits_zero (n : Nat) : HasDigits n 0 :=
  ⟨⟨0, 0⟩, by positivity, by simp [Decimal.value]⟩

/-- All nines may be exceeded by one: that is a power of ten, which has one digit. -/
theorem hasDigits_of_le {n : Nat} (hn : 0 < n) {d : Decimal} (h : d.digits ≤ 10 ^ n) :
    HasDigits n d.value := by
  rcases Nat.lt_or_eq_of_le h with hlt | heq
  · exact ⟨d, hlt, rfl⟩
  · refine ⟨⟨1, n + d.exponent⟩, Nat.one_lt_pow (by omega) (by norm_num), ?_⟩
    rw [Decimal.value, Decimal.value, heq, ← ten_zpow_mul, zpow_natCast]
    push_cast
    ring

theorem hasDigits_ten_zpow {n : Nat} (hn : 0 < n) (j : Int) : HasDigits n ((10 : Rat) ^ j) :=
  ⟨⟨1, j⟩, Nat.one_lt_pow (by omega) (by norm_num), by simp [Decimal.value]⟩

namespace HasDigits

variable {n : Nat} {x y : Rat}

theorem mono {n' : Nat} (h : HasDigits n x) (hn : n ≤ n') : HasDigits n' x := by
  obtain ⟨d, hd, hx⟩ := h
  exact ⟨d, hd.trans_le (Nat.pow_le_pow_right (by norm_num) hn), hx⟩

theorem pos (h : HasDigits n x) (hx : 0 < x) : 0 < n := by
  obtain ⟨d, hd, rfl⟩ := h
  rcases Nat.eq_zero_or_pos n with rfl | hn
  · have h0 : d.digits = 0 := by simpa using hd
    simp [Decimal.value, h0] at hx
  · exact hn

/-- A number of at most `n` digits is a multiple of the unit of its `n`-th digit, and of any finer
one. -/
theorem exists_multiple (h : HasDigits n x) (hx : 0 < x) {e : Int}
    (he : e ≤ Decimal.unitExponent n x) : ∃ k : Nat, x = k * (10 : Rat) ^ e := by
  obtain ⟨d, hd, rfl⟩ := h
  have hlead : decimalLog d.value < n + d.exponent := by
    refine decimalLog_lt hx ?_
    have hdigits : (d.digits : Rat) < 10 ^ n := by exact_mod_cast hd
    calc d.value < 10 ^ n * (10 : Rat) ^ d.exponent :=
          mul_lt_mul_of_pos_right hdigits (ten_zpow_pos _)
      _ = (10 : Rat) ^ ((n : Int) + d.exponent) := by rw [← ten_zpow_mul, zpow_natCast]
  obtain ⟨j, hj⟩ : ∃ j : Nat, d.exponent = j + e := by
    refine ⟨(d.exponent - e).toNat, ?_⟩
    unfold Decimal.unitExponent at he
    omega
  refine ⟨d.digits * 10 ^ j, ?_⟩
  rw [Decimal.value, hj, ← ten_zpow_mul, zpow_natCast]
  push_cast
  ring

/-- **Numbers of few digits lie apart**, by more than an `n`-digit fraction of the smaller one. -/
theorem lt_mul_sub (hx : HasDigits n x) (hy : HasDigits n y) (h0 : 0 < x) (h : x < y) :
    x < 10 ^ n * (y - x) := by
  set e := Decimal.unitExponent n x with he
  have hunit := ten_zpow_pos e
  have hfiner : e ≤ Decimal.unitExponent n y := by
    have := decimalLog_mono h0 h.le
    unfold Decimal.unitExponent at he ⊢
    omega
  obtain ⟨k, hk⟩ := hx.exists_multiple h0 le_rfl
  obtain ⟨l, hl⟩ := hy.exists_multiple (h0.trans h) hfiner
  rw [← he] at hk
  -- Both are multiples of the unit of the smaller one, and so is their distance.
  have hkl : k + 1 ≤ l := by
    rw [hk, hl, mul_lt_mul_iff_left₀ hunit] at h
    exact_mod_cast h
  have hkl' : (k : Rat) + 1 ≤ l := by exact_mod_cast hkl
  have hsub : (10 : Rat) ^ e ≤ y - x := by
    have := mul_le_mul_of_nonneg_right hkl' hunit.le
    rw [hk, hl]
    linarith
  calc x < (10 : Rat) ^ (decimalLog x + 1) := lt_ten_zpow_decimalLog h0
    _ = 10 ^ n * (10 : Rat) ^ e := Decimal.ten_zpow_eq_pow_mul_unit n x
    _ ≤ 10 ^ n * (y - x) := mul_le_mul_of_nonneg_left hsub (by positivity)

end HasDigits

/-! ### Rounding to significant digits -/

/-- The rounding of a whole number of units: at most half a unit away, and even at half a unit. -/
theorem roundHalfEven_close {s : Rat} (hs : 0 ≤ s) :
    |s - roundHalfEven s| ≤ 1 / 2 ∧
      (|s - roundHalfEven s| = 1 / 2 → roundHalfEven s % 2 = 0) := by
  set r := roundHalfEven s with hr
  have habove := (roundHalfEven_le_iff hs r).mp (hr ▸ le_rfl)
  rcases Nat.eq_zero_or_pos r with h0 | hpos
  · rw [h0] at habove ⊢
    simp only [Nat.cast_zero, zero_add, sub_zero, Nat.zero_mod, implies_true, and_true] at habove ⊢
    rw [abs_of_nonneg hs]
    rcases habove with h | h <;> linarith
  · obtain ⟨b, hb⟩ : ∃ b, r = b + 1 := ⟨r - 1, by omega⟩
    have hbelow : ¬ (s < b + 1 / 2 ∨ (s = b + 1 / 2 ∧ b % 2 = 0)) := by
      rw [← roundHalfEven_le_iff hs, ← hr]
      omega
    rw [not_or, not_lt, not_and] at hbelow
    have hcast : (r : Rat) = b + 1 := by rw [hb]; push_cast; rfl
    have hlow : r - 1 / 2 ≤ s := by linarith [hbelow.1]
    have hhigh : s ≤ r + 1 / 2 := by rcases habove with h | ⟨h, -⟩ <;> linarith
    refine ⟨abs_le.mpr ⟨by linarith, by linarith⟩, fun heq => ?_⟩
    rcases (abs_eq (by norm_num)).mp heq with h | h
    · rcases habove with hlt | ⟨-, heven⟩
      · linarith
      · exact heven
    · have := hbelow.2 (by linarith)
      omega

/-- Rounding keeps more than a half of what is at least one. -/
theorem lt_two_mul_roundHalfEven {s : Rat} (hs : 1 ≤ s) : s < 2 * roundHalfEven s := by
  have hclose := (abs_le.mp (roundHalfEven_close (by linarith : (0 : Rat) ≤ s)).1).2
  have hone : (1 : Rat) ≤ roundHalfEven s := by
    have hpos : (0 : Rat) < roundHalfEven s := by linarith
    exact_mod_cast hpos
  linarith

/-- Whether `q` is `x` rounded to `n` significant digits: a multiple of the unit of the `n`-th digit
of `x`, at most half a unit away, and an even multiple if it is half a unit away. -/
def IsRounding (n : Nat) (x q : Rat) : Prop :=
  ∃ lead k : Int, (10 : Rat) ^ lead ≤ |x| ∧ |x| < (10 : Rat) ^ (lead + 1) ∧
    q = k * (10 : Rat) ^ (lead - (n - 1)) ∧ 2 * |x - q| ≤ (10 : Rat) ^ (lead - (n - 1)) ∧
    (2 * |x - q| = (10 : Rat) ^ (lead - (n - 1)) → k % 2 = 0)

namespace IsRounding

variable {n : Nat} {x q : Rat}

theorem neg (h : IsRounding n x q) : IsRounding n (-x) (-q) := by
  obtain ⟨lead, k, hlow, hhigh, rfl, hclose, heven⟩ := h
  have habs : |-x - -(k * (10 : Rat) ^ (lead - (n - 1)))| =
      |x - k * (10 : Rat) ^ (lead - (n - 1))| := by
    rw [← abs_neg]
    congr 1
    ring
  refine ⟨lead, -k, by rwa [abs_neg], by rwa [abs_neg], by push_cast; ring, ?_, ?_⟩
  · rwa [habs]
  · rw [habs]
    intro h
    have := heven h
    omega

/-- Zero has no leading digit, and so no rounding. -/
theorem ne_zero (h : IsRounding n x q) : x ≠ 0 := by
  obtain ⟨lead, -, hlow, -⟩ := h
  exact abs_pos.mp ((ten_zpow_pos lead).trans_le hlow)

/-- **There is one rounding of a number.** -/
theorem unique {q' : Rat} (h : IsRounding n x q) (h' : IsRounding n x q') : q = q' := by
  obtain ⟨lead, k, hlow, hhigh, rfl, hclose, heven⟩ := h
  obtain ⟨lead', k', hlow', hhigh', rfl, hclose', heven'⟩ := h'
  have hx : 0 < |x| := (ten_zpow_pos lead).trans_le hlow
  obtain rfl : lead = lead' := by
    have := le_decimalLog hx hlow
    have := le_decimalLog hx hlow'
    have := decimalLog_lt hx hhigh
    have := decimalLog_lt hx hhigh'
    omega
  set u := (10 : Rat) ^ (lead - (n - 1)) with hu
  have hunit : 0 < u := ten_zpow_pos _
  -- Two different multiples are at least a unit apart, so each is half a unit away, and even.
  have hstep : ∀ a b : Int, 2 * |x - a * u| ≤ u → 2 * |x - b * u| ≤ u →
      (2 * |x - a * u| = u → a % 2 = 0) → (2 * |x - b * u| = u → b % 2 = 0) → ¬ a < b := by
    intro a b ha hb hae hbe hlt
    have hab : (a : Rat) + 1 ≤ b := by exact_mod_cast hlt
    have hdist := mul_le_mul_of_nonneg_right hab hunit.le
    have ha' := abs_le.mp (show |x - a * u| ≤ u / 2 by linarith)
    have hb' := abs_le.mp (show |x - b * u| ≤ u / 2 by linarith)
    have hxa : x - a * u = u / 2 := by linarith
    have hxb : x - b * u = -(u / 2) := by linarith
    have ha2 := hae (by rw [hxa, abs_of_pos (by linarith)]; ring)
    have hb2 := hbe (by rw [hxb, abs_neg, abs_of_pos (by linarith)]; ring)
    have hnext : (b : Rat) = a + 1 := by
      have : (b - (a + 1)) * u = 0 := by linarith
      have := (mul_eq_zero.mp this).resolve_right hunit.ne'
      linarith
    have : b = a + 1 := by exact_mod_cast hnext
    omega
  have hk : k = k' := by
    have h1 := hstep k k' hclose hclose' heven heven'
    have h2 := hstep k' k hclose' hclose heven' heven
    omega
  rw [hk]

end IsRounding

namespace Decimal

variable {n : Nat} {x : Rat}

/-- A positive number in units of its `n`-th digit. -/
theorem scaled_bounds (hn : 0 < n) (hx : 0 < x) :
    1 ≤ x * (10 : Rat) ^ (-unitExponent n x) ∧
      x * (10 : Rat) ^ (-unitExponent n x) < 10 ^ n := by
  have hscale : ∀ j : Int, (10 : Rat) ^ j * (10 : Rat) ^ (-unitExponent n x) =
      (10 : Rat) ^ (j - decimalLog x + (n - 1)) := by
    intro j
    rw [ten_zpow_mul, unitExponent]
    congr 1
    ring
  have hpos := ten_zpow_pos (-unitExponent n x)
  constructor
  · calc (1 : Rat) = (10 : Rat) ^ (0 : Int) := (zpow_zero _).symm
      _ ≤ (10 : Rat) ^ (decimalLog x - decimalLog x + (n - 1)) := ten_zpow_le (by omega)
      _ = (10 : Rat) ^ decimalLog x * (10 : Rat) ^ (-unitExponent n x) := (hscale _).symm
      _ ≤ x * (10 : Rat) ^ (-unitExponent n x) :=
        mul_le_mul_of_nonneg_right (ten_zpow_decimalLog_le hx) hpos.le
  · calc x * (10 : Rat) ^ (-unitExponent n x)
        < (10 : Rat) ^ (decimalLog x + 1) * (10 : Rat) ^ (-unitExponent n x) :=
          mul_lt_mul_of_pos_right (lt_ten_zpow_decimalLog hx) hpos
      _ = (10 : Rat) ^ (decimalLog x + 1 - decimalLog x + (n - 1)) := hscale _
      _ = 10 ^ n := by
        rw [← zpow_natCast]
        congr 1
        ring

theorem scaled_mul_unit (n : Nat) (x : Rat) :
    x * (10 : Rat) ^ (-unitExponent n x) * (10 : Rat) ^ unitExponent n x = x := by
  rw [mul_assoc, ten_zpow_mul]
  simp

theorem value_ofRat (n : Nat) (x : Rat) : (ofRat n x).value =
    roundHalfEven (x * (10 : Rat) ^ (-unitExponent n x)) * (10 : Rat) ^ unitExponent n x := rfl

/-- Distances from multiples of the unit, in units. -/
theorem abs_sub_mul_unit (n : Nat) (x : Rat) (k : Nat) :
    |x - k * (10 : Rat) ^ unitExponent n x| =
      |x * (10 : Rat) ^ (-unitExponent n x) - k| * (10 : Rat) ^ unitExponent n x := by
  calc |x - k * (10 : Rat) ^ unitExponent n x|
      = |(x * (10 : Rat) ^ (-unitExponent n x) - k) * (10 : Rat) ^ unitExponent n x| := by
        rw [sub_mul, scaled_mul_unit]
    _ = |x * (10 : Rat) ^ (-unitExponent n x) - k| * (10 : Rat) ^ unitExponent n x := by
        rw [abs_mul, abs_of_pos (ten_zpow_pos _)]

/-- **Rounding to significant digits rounds.** -/
theorem isRounding_ofRat (hn : 0 < n) (hx : 0 < x) : IsRounding n x (ofRat n x).value := by
  obtain ⟨hone, -⟩ := scaled_bounds hn hx
  have hvalue := value_ofRat n x
  have hdist := abs_sub_mul_unit n x (roundHalfEven (x * (10 : Rat) ^ (-unitExponent n x)))
  rw [← hvalue] at hdist
  set e := unitExponent n x with he
  set s := x * (10 : Rat) ^ (-e) with hs
  have hunit := ten_zpow_pos e
  obtain ⟨hclose, heven⟩ := roundHalfEven_close (by linarith : (0 : Rat) ≤ s)
  have hexp : decimalLog x - ((n : Int) - 1) = e := rfl
  refine ⟨decimalLog x, roundHalfEven s, ?_, ?_, ?_, ?_, ?_⟩
  · rw [abs_of_pos hx]
    exact ten_zpow_decimalLog_le hx
  · rw [abs_of_pos hx]
    exact lt_ten_zpow_decimalLog hx
  · rw [hexp, hvalue]
    push_cast
    rfl
  · rw [hexp, hdist]
    have := mul_le_mul_of_nonneg_right hclose hunit.le
    linarith
  · rw [hexp, hdist]
    intro h
    have hhalf : |s - roundHalfEven s| = 1 / 2 := by
      have : (|s - roundHalfEven s| - 1 / 2) * (10 : Rat) ^ e = 0 := by linarith
      have := (mul_eq_zero.mp this).resolve_right hunit.ne'
      linarith
    exact_mod_cast heven hhalf

/-- A number in units of its `n`-th digit rounds to at most `10 ^ n` units. -/
theorem digits_ofRat_le (hn : 0 < n) (hx : 0 < x) : (ofRat n x).digits ≤ 10 ^ n := by
  obtain ⟨hone, hlt⟩ := scaled_bounds hn hx
  show roundHalfEven (x * (10 : Rat) ^ (-unitExponent n x)) ≤ 10 ^ n
  rw [roundHalfEven_le_iff (by linarith)]
  left
  push_cast
  linarith

/-- The rounded number has as many digits as it was rounded to, also where all nines are rounded
up. -/
theorem hasDigits_ofRat (hn : 0 < n) (hx : 0 < x) : HasDigits n (ofRat n x).value :=
  hasDigits_of_le hn (digits_ofRat_le hn hx)

/-- Rounding keeps more than a half of a number. -/
theorem lt_two_mul_ofRat (hn : 0 < n) (hx : 0 < x) : x < 2 * (ofRat n x).value := by
  obtain ⟨hone, -⟩ := scaled_bounds hn hx
  have hscale := scaled_mul_unit n x
  have hhalf := lt_two_mul_roundHalfEven hone
  have := mul_lt_mul_of_pos_right hhalf (ten_zpow_pos (unitExponent n x))
  rw [hscale, mul_assoc] at this
  exact this

end Decimal

end LatLonText
