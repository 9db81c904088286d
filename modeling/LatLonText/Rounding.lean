/-
# Exact rounding of rational numbers

Every number this library writes or reads goes through two operations on exact
rationals: finding the power of two or of ten that a number starts with
(`binaryLog`, `decimalLog`), and rounding a nonnegative number to a whole one, a
half going to the even neighbour (`roundHalfEven`). Binary formats and decimal
digits are both built from these.

Key definitions: `roundHalfEven`, `floorLog`, `binaryLog`, `decimalLog`.
Key theorems: `roundHalfEven_natCast`.
-/
namespace LatLonText

/-! ### Whole numbers -/

/-- The whole number nearest to `r`, which is not negative; a half goes to the even neighbour. -/
def roundHalfEven (r : Rat) : Nat :=
  let below := r.floor.toNat
  let rest := r - (below : Rat)
  if rest < 1 / 2 then below
  else if 1 / 2 < rest then below + 1
  else if below % 2 = 0 then below
  else below + 1

/-- A whole number rounds to itself. -/
theorem roundHalfEven_natCast (n : Nat) : roundHalfEven (n : Rat) = n := by
  have hf : (n : Rat).floor = (n : Int) := by
    rw [← Rat.intCast_natCast]; exact Rat.floor_intCast n
  have hz : (n : Rat) - ((n : Int).toNat : Rat) = 0 := by
    rw [Int.toNat_natCast]; exact Rat.sub_self
  unfold roundHalfEven
  simp only [hf, hz]
  rw [if_pos (by decide +kernel)]
  exact Int.toNat_natCast n

/-! ### Leading powers -/

/-- How often `n` can be divided by ten before it falls below ten, counted up to `limit`. -/
def decimalLogWithin : (limit : Nat) → (n : Nat) → Nat
  | 0, _ => 0
  | limit + 1, n => if n < 10 then 0 else decimalLogWithin limit (n / 10) + 1

/-- The exponent of the largest power of ten that is at most `n`; zero for zero. A number has at
most as many digits as it has bits, so its bits bound the count. -/
def decimalLogNat (n : Nat) : Nat :=
  decimalLogWithin n.log2 n

/-- The exponent `e` with `base ^ e ≤ r < base ^ (e + 1)`, for a positive `r`, where `log` gives
that exponent for whole numbers. Those of numerator and denominator leave two neighbouring
exponents open, and one comparison decides. -/
def floorLog (base : Nat) (log : Nat → Nat) (r : Rat) : Int :=
  let guess : Int := (log r.num.toNat : Int) - (log r.den : Int)
  if (base : Rat) ^ guess ≤ r then guess else guess - 1

/-- The power of two that a positive number starts with. -/
def binaryLog (r : Rat) : Int :=
  floorLog 2 Nat.log2 r

/-- The power of ten that a positive number starts with. -/
def decimalLog (r : Rat) : Int :=
  floorLog 10 decimalLogNat r

end LatLonText
