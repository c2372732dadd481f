import Mathlib.Algebra.Order.Field.Rat
import Mathlib.Data.Rat.Floor
import Mathlib.Tactic.FieldSimp
import Mathlib.Tactic.Linarith
import Mathlib.Tactic.Ring
import Loadout.Number

/-!
# Exact numbers

Numbers are exact if their operations are those of an ordered field and nothing is ever rounded that is
not asked to be. What holds of all exact numbers is what the formulas say, apart from what floating-point
arithmetic makes of them. Logarithms, powers and the spelling of numbers may be anything.

* `ExactNumber`: the laws of exact arithmetic;
* `greatest_eq_max`, `least_eq_min`, `clamp_of_mem`: the extremes are those of the order;
* `exists_floor_eq`: the whole part of a number that is not negative;
* the rational numbers are exact, so that the laws can be met and the library can be run on them.
-/

namespace Loadout

/-- Numbers with exact operations. -/
class ExactNumber (K : Type) extends Number K, Field K, LinearOrder K, IsStrictOrderedRing K where
  beq_iff (x y : K) : toNumber.toBEq.beq x y = true ↔ x = y
  /-- A number in a program is what its digits say. -/
  ofScientific_eq (m : ℕ) (negative : Bool) (e : ℕ) :
    toNumber.toOfScientific.ofScientific m negative e =
      if negative then (m : K) / 10 ^ e else (m : K) * 10 ^ e
  /-- The greatest whole number that is not above. -/
  floor_spec (x : K) : ∃ n : ℤ, floor x = n ∧ (n : K) ≤ x ∧ x < n + 1
  /-- The least whole number that is not below. -/
  ceil_spec (x : K) : ∃ n : ℤ, ceil x = n ∧ (n : K) - 1 < x ∧ x ≤ n
  /-- The nearest whole number; a half goes away from zero. -/
  round_spec (x : K) : ∃ n : ℤ, round x = n ∧
    if 0 ≤ x then (n : K) - 1 / 2 ≤ x ∧ x < n + 1 / 2 else (n : K) - 1 / 2 < x ∧ x ≤ n + 1 / 2
  /-- What is left after taking away whole times, of the sign of what it is left of. -/
  rem_spec (x y : K) : y ≠ 0 → ∃ n : ℤ, rem x y = x - n * y ∧ |rem x y| < |y| ∧ 0 ≤ x * rem x y
  finite_eq (x : K) : finite x = true
  before_iff (x y : K) : before x y = true ↔ x < y

namespace ExactNumber

/-! ## Extremes -/

variable {K : Type} [ExactNumber K]

/-- A program writes whole numbers with one digit behind the point. -/
theorem ofScientific_tenths {m n : ℕ} (h : m = n * 10) :
    Number.toOfScientific.ofScientific m true 1 = (n : K) := by
  rw [ofScientific_eq, if_pos rfl, h, pow_one, Nat.cast_mul, Nat.cast_ofNat,
    mul_div_cancel_right₀ _ (OfNat.ofNat_ne_zero 10)]

/-- The zero of a program. -/
theorem zero_eq : Number.toOfScientific.ofScientific 0 true 1 = (0 : K) :=
  (ofScientific_tenths (n := 0) rfl).trans Nat.cast_zero

/-- The one of a program. -/
theorem one_eq : Number.toOfScientific.ofScientific 10 true 1 = (1 : K) :=
  (ofScientific_tenths (n := 1) rfl).trans Nat.cast_one

theorem greatest_eq_max (x y : K) : Number.greatest x y = max x y := by
  unfold Number.greatest
  by_cases h : y < x
  · rw [if_pos h, max_eq_left h.le]
  · rw [if_neg h, if_pos ((beq_iff y y).mpr rfl), max_eq_right (not_lt.mp h)]

theorem least_eq_min (x y : K) : Number.least x y = min x y := by
  unfold Number.least
  by_cases h : x < y
  · rw [if_pos h, min_eq_left h.le]
  · rw [if_neg h, if_pos ((beq_iff y y).mpr rfl), min_eq_right (not_lt.mp h)]

/-- A number between the ends stays. -/
theorem clamp_of_mem {x low high : K} (hLow : low ≤ x) (hHigh : x ≤ high) : Number.clamp x low high = x := by
  unfold Number.clamp
  rw [if_neg (not_lt.mpr hLow), if_neg (not_lt.mpr hHigh)]

theorem sum_eq (xs : List K) : Number.sum xs = xs.sum := by
  unfold Number.sum
  rw [zero_eq, List.sum_eq_foldl]

/-! ## Whole parts -/

/-- The whole part of a number that is not negative. -/
theorem exists_floor_eq {x : K} (h : 0 ≤ x) : ∃ n : ℕ, Number.floor x = n ∧ (n : K) ≤ x ∧ x < n + 1 := by
  obtain ⟨n, hFloor, hLow, hHigh⟩ := floor_spec x
  have hCast : (0 : K) < (n + 1 : ℤ) := by
    push_cast
    linarith
  obtain ⟨k, rfl⟩ := Int.eq_ofNat_of_zero_le (Int.lt_add_one_iff.mp (Int.cast_pos.mp hCast))
  rw [Int.cast_natCast] at hFloor hLow hHigh
  exact ⟨k, hFloor, hLow, hHigh⟩

end ExactNumber

/-! ## The rational numbers -/

namespace Exact

/-- The nearest whole number, a half going away from zero. -/
def round (x : ℚ) : ℚ := if 0 ≤ x then ⌊x + 1 / 2⌋ else -⌊1 / 2 - x⌋

/-- The whole part, without what is behind the point. -/
def truncate (x : ℚ) : ℤ := if 0 ≤ x then ⌊x⌋ else ⌈x⌉

theorem ofScientific_eq (m : ℕ) (negative : Bool) (e : ℕ) :
    (OfScientific.ofScientific m negative e : ℚ) =
      if negative then (m : ℚ) / 10 ^ e else (m : ℚ) * 10 ^ e := by
  cases negative with
  | false =>
    change Rat.ofScientific m false e = (m : ℚ) * 10 ^ e
    rw [Rat.ofScientific_false_def]
    push_cast
    rfl
  | true =>
    change Rat.ofScientific m true e = (m : ℚ) / 10 ^ e
    rw [Rat.ofScientific_true_def, Rat.mkRat_eq_div]
    push_cast
    rfl

scoped instance : Number ℚ where
  decidableLT := inferInstance
  decidableLE := inferInstance
  floor x := ⌊x⌋
  ceil x := ⌈x⌉
  round := round
  rem x y := x - truncate (x / y) * y
  log _ := 0
  power x y := x ^ y.num
  finite _ := true
  infinity := 0
  before x y := decide (x < y)
  text x := toString x

theorem round_spec (x : ℚ) : ∃ n : ℤ, round x = n ∧
    if 0 ≤ x then (n : ℚ) - 1 / 2 ≤ x ∧ x < n + 1 / 2 else (n : ℚ) - 1 / 2 < x ∧ x ≤ n + 1 / 2 := by
  unfold round
  split
  · have hLow := Int.floor_le (x + 1 / 2)
    have hHigh := Int.lt_floor_add_one (x + 1 / 2)
    exact ⟨⌊x + 1 / 2⌋, rfl, by linarith, by linarith⟩
  · have hLow := Int.floor_le (1 / 2 - x)
    have hHigh := Int.lt_floor_add_one (1 / 2 - x)
    refine ⟨-⌊1 / 2 - x⌋, (Int.cast_neg _).symm, ?_⟩
    rw [Int.cast_neg]
    exact ⟨by linarith, by linarith⟩

/-- What is cut off is less than one and has the sign of the number. -/
theorem truncate_spec (x : ℚ) : |x - truncate x| < 1 ∧ 0 ≤ x * (x - truncate x) := by
  unfold truncate
  split
  · rename_i hx
    have hLow := Int.floor_le x
    have hHigh := Int.lt_floor_add_one x
    refine ⟨?_, mul_nonneg hx (by linarith)⟩
    rw [abs_of_nonneg (by linarith)]
    linarith
  · rename_i hx
    have hLow := Int.le_ceil x
    have hHigh := Int.ceil_lt_add_one x
    refine ⟨?_, mul_nonneg_of_nonpos_of_nonpos (by linarith) (by linarith)⟩
    rw [abs_of_nonpos (by linarith)]
    linarith

theorem rem_spec {x y : ℚ} (hy : y ≠ 0) :
    |x - truncate (x / y) * y| < |y| ∧ 0 ≤ x * (x - truncate (x / y) * y) := by
  obtain ⟨hSmall, hSign⟩ := truncate_spec (x / y)
  have hRest : x - truncate (x / y) * y = (x / y - truncate (x / y)) * y := by
    rw [sub_mul, div_mul_cancel₀ x hy]
  have hProduct : x * ((x / y - truncate (x / y)) * y) =
      x / y * (x / y - truncate (x / y)) * y ^ 2 := by
    field_simp
  rw [hRest]
  refine ⟨?_, ?_⟩
  · rw [abs_mul]
    exact mul_lt_of_lt_one_left (abs_pos.mpr hy) hSmall
  · rw [hProduct]
    positivity

scoped instance : ExactNumber ℚ where
  __ := (inferInstance : Field ℚ)
  __ := (inferInstance : LinearOrder ℚ)
  __ := (inferInstance : Number ℚ)
  __ := (inferInstance : IsStrictOrderedRing ℚ)
  beq_iff x y := beq_iff_eq
  ofScientific_eq := ofScientific_eq
  floor_spec x := ⟨⌊x⌋, rfl, Int.floor_le x, Int.lt_floor_add_one x⟩
  ceil_spec x := ⟨⌈x⌉, rfl, by linarith [Int.ceil_lt_add_one x], Int.le_ceil x⟩
  round_spec := round_spec
  rem_spec x y hy := ⟨truncate (x / y), rfl, rem_spec hy⟩
  finite_eq _ := rfl
  before_iff _ _ := decide_eq_true_iff

end Exact

end Loadout
