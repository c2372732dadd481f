/-!
# Rounding a ratio of whole numbers

A positive number `num / den` is rounded to a whole multiple of a power of ten in exact
arithmetic. Powers of ten with a negative exponent move to the other side of the ratio, so
nothing is lost before the one rounding.

* `nearestEven_mul_le`, `le_nearestEven_mul`: rounding to the nearest whole number is off by at
  most one half.
-/

namespace Loadout.Rounding

/-- The whole number nearest to `num / den`; a half goes to the even neighbour. -/
def nearestEven (num den : Nat) : Nat :=
  let low := num / den
  let rest := num % den
  if 2 * rest < den then low
  else if den < 2 * rest then low + 1
  else if low % 2 = 0 then low else low + 1

/-- The number of decimal digits, one for zero. -/
def digitCount (n : Nat) : Nat :=
  if n < 10 then 1 else digitCount (n / 10) + 1
termination_by n
decreasing_by omega

/-- A ratio with its numerator and denominator. -/
structure Ratio where
  num : Nat
  den : Nat

/-- The ratio divided by ten raised to `e`. -/
def Ratio.unscale (r : Ratio) (e : Int) : Ratio :=
  if e < 0 then ⟨r.num * Nat.pow 10 e.natAbs, r.den⟩
  else ⟨r.num, r.den * Nat.pow 10 e.natAbs⟩

/-- The whole part. -/
def Ratio.floor (r : Ratio) : Nat := r.num / r.den

/-- The exponent of the leading decimal digit: ten to this power is at most the ratio, and the
ratio is below ten times that power. The count of digits is off by one at most. -/
def Ratio.leadingExponent (r : Ratio) : Int :=
  let guess : Int := digitCount r.num - digitCount r.den
  if (r.unscale guess).floor = 0 then guess - 1 else guess

/-- The ratio rounded to `n` decimal digits: the digits as a whole number and the exponent of the
first of them. Rounding up to the next power of ten moves the exponent. -/
def Ratio.toDigits (r : Ratio) (n : Nat) : Nat × Int :=
  let e := r.leadingExponent
  let scaled := r.unscale (e - (n - 1 : Nat))
  let digits := nearestEven scaled.num scaled.den
  if digits = Nat.pow 10 n then (Nat.pow 10 (n - 1), e + 1) else (digits, e)

theorem nearestEven_mul_le (num den : Nat) : 2 * (nearestEven num den * den) ≤ 2 * num + den := by
  have h := Nat.div_add_mod num den
  have hc : num / den * den = den * (num / den) := Nat.mul_comm ..
  simp only [nearestEven]
  split
  · omega
  · split
    · rw [Nat.add_mul]; omega
    · split
      · omega
      · rw [Nat.add_mul]; omega

theorem le_nearestEven_mul {num den : Nat} (hd : 0 < den) :
    2 * num ≤ 2 * (nearestEven num den * den) + den := by
  have h := Nat.div_add_mod num den
  have hlt := Nat.mod_lt num hd
  have hc : num / den * den = den * (num / den) := Nat.mul_comm ..
  simp only [nearestEven]
  split
  · omega
  · split
    · rw [Nat.add_mul]; omega
    · split
      · omega
      · rw [Nat.add_mul]; omega

theorem digitCount_pos (n : Nat) : 0 < digitCount n := by
  rw [digitCount]; split <;> omega

end Loadout.Rounding
