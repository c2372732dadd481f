import Mathlib.Algebra.Order.Field.Rat
import Loadout.Enemy
import Loadout.Proofs.Number.Exact

/-!
# What defense lets through

Of the defense only what is not ignored counts, and of the levels by which the enemy is above the attacker twenty
at most. A hit is then divided between the defense that counts and a number that is smaller for each level. That
number is never below a hundred. So in exact arithmetic a part of the hit always gets through, more of it against
less defense and fewer levels, and the guards of the computation are never needed.

* `defenseMultiplier_eq_div`: the share without the guards;
* `defenseMultiplier_pos`, `defenseMultiplier_le_one`, `defenseMultiplier_eq_one_iff`: the range of the share;
* `defenseMultiplier_anti`: the share falls with defense and with levels;
* `defenseMultiplier_spec`: all of this.
-/

namespace Loadout

variable {K : Type} [ExactNumber K]

open ExactNumber (zero_eq one_eq ofScientific_tenths greatest_eq_max clamp_of_mem)

/-- The defense that counts. -/
def effectiveDefense (defense ignore : K) : K := max 0 (defense * (1 - ignore))

/-- The levels that count. -/
def countedLevels (levels : Int) : Nat := (min levels 20).toNat

/-- What defense is weighed against: three hundred, less ten for each level that counts. -/
def counterweight (levels : Int) : K := 300 - countedLevels levels * 10

variable {defense ignore : K} {levels : Int}

theorem effectiveDefense_nonneg : 0 ≤ effectiveDefense defense ignore := le_max_left _ _

theorem countedLevels_le (levels : Int) : countedLevels levels ≤ 20 := by
  unfold countedLevels
  omega

theorem countedLevels_mono {levels levels' : Int} (h : levels ≤ levels') :
    countedLevels levels ≤ countedLevels levels' := by
  unfold countedLevels
  omega

theorem counterweight_pos (levels : Int) : (0 : K) < counterweight levels := by
  have hLevels : (countedLevels levels : K) ≤ 20 := by exact_mod_cast countedLevels_le levels
  unfold counterweight
  linarith

theorem counterweight_anti {levels levels' : Int} (h : levels ≤ levels') :
    (counterweight levels' : K) ≤ counterweight levels := by
  have hLevels : (countedLevels levels : K) ≤ countedLevels levels' := by exact_mod_cast countedLevels_mono h
  unfold counterweight
  linarith

theorem denominator_pos : 0 < counterweight levels + effectiveDefense defense ignore :=
  add_pos_of_pos_of_nonneg (counterweight_pos levels) effectiveDefense_nonneg

theorem one_sub_div_denominator :
    1 - effectiveDefense defense ignore / (counterweight levels + effectiveDefense defense ignore) =
      counterweight levels / (counterweight levels + effectiveDefense defense ignore) := by
  rw [eq_div_iff denominator_pos.ne', sub_mul, one_mul, div_mul_cancel₀ _ denominator_pos.ne', add_sub_cancel_right]

/-- The share that gets through is that of the counterweight: the denominator is positive, and the share is inside
the range to which it is clamped. -/
theorem defenseMultiplier_eq_div (defense ignore : K) (levels : Int) :
    defenseMultiplier defense ignore levels =
      counterweight levels / (counterweight levels + effectiveDefense defense ignore) := by
  have hThreeHundred : Number.toOfScientific.ofScientific 3000 true 1 = (300 : K) :=
    (ofScientific_tenths (n := 300) rfl).trans Nat.cast_ofNat
  have hTen : Number.toOfScientific.ofScientific 100 true 1 = (10 : K) :=
    (ofScientific_tenths (n := 10) rfl).trans Nat.cast_ofNat
  have hDenominator : 300 + effectiveDefense defense ignore - (min levels 20).toNat * 10 =
      counterweight levels + effectiveDefense defense ignore := by
    rw [counterweight, countedLevels]
    ring
  have hShare : 0 ≤ counterweight levels / (counterweight levels + effectiveDefense defense ignore) :=
    div_nonneg (counterweight_pos levels).le denominator_pos.le
  have hLeOne : counterweight levels / (counterweight levels + effectiveDefense defense ignore) ≤ 1 :=
    div_le_one_of_le₀ (le_add_of_nonneg_right effectiveDefense_nonneg) denominator_pos.le
  simp only [defenseMultiplier, zero_eq, one_eq, greatest_eq_max, hThreeHundred, hTen, max_comm _ (0 : K)]
  rw [← effectiveDefense, hDenominator, if_neg (not_le.mpr denominator_pos), one_sub_div_denominator,
    clamp_of_mem hShare hLeOne]

/-! ## The range of the share, and its order -/

theorem defenseMultiplier_pos (defense ignore : K) (levels : Int) :
    0 < defenseMultiplier defense ignore levels := by
  rw [defenseMultiplier_eq_div]
  exact div_pos (counterweight_pos levels) denominator_pos

theorem defenseMultiplier_le_one (defense ignore : K) (levels : Int) :
    defenseMultiplier defense ignore levels ≤ 1 := by
  rw [defenseMultiplier_eq_div]
  exact div_le_one_of_le₀ (le_add_of_nonneg_right effectiveDefense_nonneg) denominator_pos.le

/-- A hit gets through in full just when there is no defense that counts. -/
theorem defenseMultiplier_eq_one_iff :
    defenseMultiplier defense ignore levels = 1 ↔ effectiveDefense defense ignore = 0 := by
  rw [defenseMultiplier_eq_div, div_eq_one_iff_eq denominator_pos.ne', left_eq_add]

theorem defenseMultiplier_anti {defense' ignore' : K} {levels' : Int}
    (hDefense : effectiveDefense defense ignore ≤ effectiveDefense defense' ignore')
    (hLevels : levels ≤ levels') :
    defenseMultiplier defense' ignore' levels' ≤ defenseMultiplier defense ignore levels := by
  rw [defenseMultiplier_eq_div, defenseMultiplier_eq_div, div_le_div_iff₀ denominator_pos denominator_pos,
    mul_add, mul_add, mul_comm (counterweight levels')]
  have hCross : counterweight levels' * effectiveDefense defense ignore ≤
      counterweight levels * effectiveDefense defense' ignore' :=
    mul_le_mul (counterweight_anti hLevels) hDefense effectiveDefense_nonneg (counterweight_pos levels).le
  exact add_le_add le_rfl hCross

/-- The share of a hit that defense lets through. The denominator is positive and the quotient is in range, so
neither guard changes anything; the share is all of the hit just when no defense counts, and never nothing; and it
is no greater against more defense that counts or more levels. -/
theorem defenseMultiplier_spec (defense ignore : K) (levels : Int) :
    0 < 300 + effectiveDefense defense ignore - countedLevels levels * 10 ∧
      defenseMultiplier defense ignore levels = 1 - effectiveDefense defense ignore /
        (300 + effectiveDefense defense ignore - countedLevels levels * 10) ∧
      0 < defenseMultiplier defense ignore levels ∧ defenseMultiplier defense ignore levels ≤ 1 ∧
      (defenseMultiplier defense ignore levels = 1 ↔ effectiveDefense defense ignore = 0) ∧
      ∀ defense' ignore' levels', effectiveDefense defense ignore ≤ effectiveDefense defense' ignore' →
        levels ≤ levels' →
        defenseMultiplier defense' ignore' levels' ≤ defenseMultiplier defense ignore levels := by
  have hDenominator : 300 + effectiveDefense defense ignore - countedLevels levels * 10 =
      counterweight levels + effectiveDefense defense ignore := by
    rw [counterweight]
    ring
  rw [hDenominator]
  refine ⟨denominator_pos, ?_, defenseMultiplier_pos .., defenseMultiplier_le_one ..,
    defenseMultiplier_eq_one_iff, fun _ _ _ => defenseMultiplier_anti⟩
  rw [one_sub_div_denominator, defenseMultiplier_eq_div]

section

open scoped Exact

/-- Defense that is ignored to a negative share counts double, and of fifty levels twenty count. -/
theorem defenseMultiplier_spec_doubled :
    effectiveDefense (300 : ℚ) 0 ≤ effectiveDefense 300 (-1) ∧ (5 : Int) ≤ 50 ∧
      defenseMultiplier (300 : ℚ) (-1) 50 = 1 - 600 / (300 + 600 - 20 * 10) ∧
      defenseMultiplier (300 : ℚ) (-1) 50 ≠ 1 ∧
      defenseMultiplier (300 : ℚ) (-1) 50 ≤ defenseMultiplier 300 0 5 := by
  have hDoubled : effectiveDefense (300 : ℚ) (-1) = 600 := by decide +kernel
  have hMore : effectiveDefense (300 : ℚ) 0 ≤ effectiveDefense 300 (-1) := by decide +kernel
  obtain ⟨-, hEq, -, -, hFull, -⟩ := defenseMultiplier_spec (300 : ℚ) (-1) 50
  obtain ⟨-, -, -, -, -, hAnti⟩ := defenseMultiplier_spec (300 : ℚ) 0 5
  rw [hDoubled] at hEq hFull
  exact ⟨hMore, by decide, hEq, mt hFull.mp (by decide), hAnti 300 (-1) 50 hMore (by decide)⟩

end

end Loadout
