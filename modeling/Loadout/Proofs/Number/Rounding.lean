import Mathlib.Algebra.Order.Field.Power
import Mathlib.Algebra.Order.Field.Rat
import Mathlib.Tactic.Linarith
import Mathlib.Tactic.NormNum
import Mathlib.Tactic.Positivity
import Mathlib.Tactic.Ring

/-!
# Rounding to binary digits

A number with 53 binary digits is a whole multiple of a power of two, its unit, and there is a least
unit. Rounding takes the nearest multiple of the unit that goes with the size of a number, and the even
one where two are equally near. This is said about rational numbers, without reference to how it is
computed.

* `Rounds`: one number is the other one rounded;
* `Rounds.mono`: rounding keeps the order, also where numbers of different units meet;
* `Rounds.unique`: there is one way to round.
-/

namespace Loadout.Number.Binary

/-- `n` is the whole number nearest to `x`, the even one where two are equally near. -/
structure NearestEven (n : ℤ) (x : ℚ) : Prop where
  le : (n : ℚ) - 1 / 2 ≤ x
  ge : x ≤ (n : ℚ) + 1 / 2
  even : x = n - 1 / 2 ∨ x = n + 1 / 2 → Even n

namespace NearestEven

variable {m n : ℤ} {x y : ℚ}

theorem self (n : ℤ) : NearestEven n n := by
  refine ⟨by linarith, by linarith, ?_⟩
  rintro (h | h) <;> linarith

theorem neg (h : NearestEven n x) : NearestEven (-n) (-x) := by
  obtain ⟨hle, hge, heven⟩ := h
  refine ⟨by push_cast; linarith, by push_cast; linarith, ?_⟩
  intro hTie
  apply Even.neg
  apply heven
  push_cast at hTie
  rcases hTie with hTie | hTie
  · exact .inr (by linarith)
  · exact .inl (by linarith)

/-- A half that is passed over in the wrong direction would be a tie for two neighbours, and only one
of them is even. -/
theorem mono (hx : NearestEven m x) (hy : NearestEven n y) (h : x ≤ y) : m ≤ n := by
  by_contra hlt
  have hStep : n + 1 ≤ m := by omega
  have hCast : (n : ℚ) + 1 ≤ m := by exact_mod_cast hStep
  have hx' := hx.le
  have hy' := hy.ge
  have hEq : m = n + 1 := by
    have : (m : ℚ) = n + 1 := by linarith
    exact_mod_cast this
  have hm : Even m := hx.even (.inl (by linarith))
  have hn : Even n := hy.even (.inr (by linarith))
  rw [hEq] at hm
  exact (Int.even_add_one.mp hm) hn

end NearestEven

theorem two_zpow_add (e : ℤ) (k : ℕ) [k.AtLeastTwo] :
    (2 : ℚ) ^ (e + (OfNat.ofNat k : ℤ)) = 2 ^ (OfNat.ofNat k : ℕ) * 2 ^ e := by
  rw [zpow_add₀ two_ne_zero, mul_comm, zpow_ofNat]

/-- `e` is the exponent of the unit for numbers of the size of `x`: 53 binary digits are enough for the
whole units, and they are all needed unless there is no smaller unit. -/
structure UnitExponent (x : ℚ) (e : ℤ) : Prop where
  least_le : -1074 ≤ e
  lt : |x| < 2 ^ (e + 53)
  le : e = -1074 ∨ 2 ^ (e + 52) ≤ |x|

/-- `y` is `x` rounded to 53 binary digits and to whole units of the least exponent. -/
def Rounds (x y : ℚ) : Prop :=
  ∃ (e n : ℤ), UnitExponent x e ∧ NearestEven n (x / 2 ^ e) ∧ y = n * 2 ^ e

namespace Rounds

variable {x y x' y' : ℚ}

theorem neg (h : Rounds x y) : Rounds (-x) (-y) := by
  obtain ⟨e, n, hUnit, hNearest, rfl⟩ := h
  refine ⟨e, -n, ⟨hUnit.least_le, ?_, ?_⟩, ?_, by push_cast; ring⟩
  · rw [abs_neg]
    exact hUnit.lt
  · rw [abs_neg]
    exact hUnit.le
  · rw [neg_div]
    exact hNearest.neg

/-- A whole number of units that needs no more than 53 digits stays as it is. -/
theorem self {e n : ℤ} (h : UnitExponent (n * 2 ^ e) e) : Rounds (n * 2 ^ e) (n * 2 ^ e) := by
  refine ⟨e, n, h, ?_, rfl⟩
  rw [mul_div_cancel_right₀ _ (by positivity)]
  exact .self n

theorem nonneg (h : Rounds x y) (hx : 0 ≤ x) : 0 ≤ y := by
  obtain ⟨e, n, -, hNearest, rfl⟩ := h
  have hn : 0 ≤ n := by
    apply (NearestEven.self 0).mono hNearest
    push_cast
    positivity
  have : (0 : ℚ) ≤ n := by exact_mod_cast hn
  positivity

/-- Rounding takes no more than 53 digits, or the next power of two. -/
theorem le_pow {e n : ℤ} (h : NearestEven n (x / 2 ^ e)) (hx : x < 2 ^ (e + 53)) : n ≤ 2 ^ 53 := by
  apply h.mono (.self (2 ^ 53))
  rw [div_le_iff₀ (by positivity)]
  rw [Int.cast_pow, Int.cast_ofNat, ← two_zpow_add]
  exact hx.le

theorem pow_le {e n : ℤ} (h : NearestEven n (x / 2 ^ e)) (hx : 2 ^ (e + 52) ≤ x) : 2 ^ 52 ≤ n := by
  apply (NearestEven.self (2 ^ 52)).mono h
  rw [le_div_iff₀ (by positivity)]
  rw [Int.cast_pow, Int.cast_ofNat, ← two_zpow_add]
  exact hx

/-- Numbers in different units are separated by a power of two, which is in both units. -/
theorem mono_of_nonneg (h : Rounds x y) (h' : Rounds x' y') (hx : 0 ≤ x) (hle : x ≤ x') :
    y ≤ y' := by
  obtain ⟨e, n, hUnit, hNearest, rfl⟩ := h
  obtain ⟨e', n', hUnit', hNearest', rfl⟩ := h'
  have hx' : 0 ≤ x' := hx.trans hle
  have hLt := hUnit.lt
  have hLe := hUnit.le
  have hLt' := hUnit'.lt
  have hLe' := hUnit'.le
  rw [abs_of_nonneg hx] at hLt hLe
  rw [abs_of_nonneg hx'] at hLt' hLe'
  rcases lt_trichotomy e e' with he | rfl | he
  · have hMid : (2 : ℚ) ^ (e' + 52) ≤ x' := hLe'.resolve_left (by have := hUnit.least_le; omega)
    have hn : (n : ℚ) ≤ 2 ^ 53 := by exact_mod_cast le_pow hNearest hLt
    have hn' : (2 : ℚ) ^ 52 ≤ n' := by exact_mod_cast pow_le hNearest' hMid
    calc (n : ℚ) * 2 ^ e ≤ 2 ^ 53 * 2 ^ e := by gcongr
      _ = 2 ^ (e + 53) := (two_zpow_add e 53).symm
      _ ≤ 2 ^ (e' + 52) := zpow_le_zpow_right₀ (by norm_num) (by omega)
      _ = 2 ^ 52 * 2 ^ e' := two_zpow_add e' 52
      _ ≤ n' * 2 ^ e' := by gcongr
  · have hn : n ≤ n' := hNearest.mono hNearest' (by gcongr)
    gcongr
  · have hMid : (2 : ℚ) ^ (e + 52) ≤ x := hLe.resolve_left (by have := hUnit'.least_le; omega)
    have hPow : (2 : ℚ) ^ (e' + 53) ≤ 2 ^ (e + 52) := zpow_le_zpow_right₀ (by norm_num) (by omega)
    exact absurd (hMid.trans hle) (not_le.mpr (hLt'.trans_le hPow))

/-- Rounding keeps the order. -/
theorem mono (h : Rounds x y) (h' : Rounds x' y') (hle : x ≤ x') : y ≤ y' := by
  rcases le_total 0 x with hx | hx
  · exact h.mono_of_nonneg h' hx hle
  · rcases le_total 0 x' with hx' | hx'
    · have hy := h.neg.nonneg (by linarith)
      have hy' := h'.nonneg hx'
      linarith
    · have := h'.neg.mono_of_nonneg h.neg (by linarith) (by linarith)
      linarith

theorem unique (h : Rounds x y) (h' : Rounds x y') : y = y' :=
  le_antisymm (h.mono h' le_rfl) (h'.mono h le_rfl)

end Rounds

end Loadout.Number.Binary
