import Mathlib.Algebra.Order.Field.Rat
import Loadout.Damage.Hit
import Loadout.Proofs.Number.Exact

/-!
# The expected damage of a weapon hit

A grid of damage holds what is expected beside what may happen, and both are computed from the same formula: the
expected number of critical hits is put where a number of them stands, and the rate of triggers where a trigger
counts in full or not at all. That gives an expectation because damage is an affine function of either of them
while the other one is held fixed, and affine functions keep means. In exact arithmetic it makes no difference
whether critical hits are sure, possible or out of the question, and whether the enemy minds the trigger.

* `Spread.IsMean`, `Spread.IsMean.map_affine`: an expectation as a mean of two outcomes;
* `isMean_critHits`, `Attack.isMean_triggerShares`: the critical hits and the triggers of one hit;
* `DamageGrid.IsMean`, `DamageGrid.IsMean.expected_eq`: the rows and the columns of a grid, and the cell in its
  centre;
* `Attack.weaponDamage_isMean`: the grid of a weapon hit.
-/

namespace Loadout

variable {K : Type} [ExactNumber K]

open ExactNumber (zero_eq one_eq greatest_eq_max exists_floor_eq ceil_spec)

/-! ## Means -/

/-- The expectation is the mean of the two outcomes, where the higher one has the probability `p`. -/
def Spread.IsMean (p : K) (s : Spread K) : Prop :=
  s.expected = (1 - p) * s.lower + p * s.higher

namespace Spread

variable {p : K} {s : Spread K}

theorem isMean_same (p x : K) : (same x).IsMean p := by
  change x = (1 - p) * x + p * x
  ring

theorem IsMean.map_affine (h : s.IsMean p) {f : K → K} {u v : K} (hf : ∀ x, f x = u * x + v) :
    (s.map f).IsMean p := by
  change f s.expected = (1 - p) * f s.lower + p * f s.higher
  rw [hf, hf, hf, h]
  ring

theorem forall_mem_map_toList {α β : Type} {P : β → Prop} {f : α → β} (s : Spread α) (h : ∀ a, P (f a)) :
    ∀ b ∈ (s.map f).toList, P b := by
  simp only [map, toList, List.forall_mem_cons]
  exact ⟨h _, h _, h _, List.forall_mem_nil _⟩

end Spread

/-! ## Critical hits and triggers -/

/-- The number of critical hits by their outcome: those that are certain, the expected number, and one more if
there may be one more. There may be one in any case. -/
def critHits (rate : K) : Spread K :=
  ⟨Number.floor (max rate 0), max rate 0, max (Number.ceil (max rate 0)) 1⟩

/-- The probability of one critical hit more than there are certain. -/
def critChance (rate : K) : K := max rate 0 - Number.floor (max rate 0)

theorem critChance_spec (rate : K) :
    ∃ n : ℕ, max rate 0 = n + critChance rate ∧ 0 ≤ critChance rate ∧ critChance rate < 1 := by
  obtain ⟨n, hFloor, hLe, hLt⟩ := exists_floor_eq (le_max_right rate 0)
  rw [critChance, hFloor]
  exact ⟨n, by ring, sub_nonneg.mpr hLe, sub_lt_iff_lt_add'.mpr hLt⟩

/-- Above a whole number there is one more critical hit to be had. -/
theorem higher_critHits {rate : K} (h : 0 < critChance rate) :
    (critHits rate).higher = (critHits rate).lower + 1 := by
  obtain ⟨n, hFloor, hLe, hLt⟩ := exists_floor_eq (le_max_right rate 0)
  obtain ⟨m, hCeil, hAbove, hBelow⟩ := ceil_spec (max rate 0)
  rw [critChance, hFloor, sub_pos] at h
  have hLow : ((n : ℤ) : K) < m := by
    rw [Int.cast_natCast]
    exact h.trans_le hBelow
  have hHigh : ((m : ℤ) : K) < ((n + 2 : ℤ) : K) := by
    push_cast
    linarith
  have hNext : m = n + 1 := by
    have := Int.cast_lt.mp hLow
    have := Int.cast_lt.mp hHigh
    omega
  have hOne : (1 : K) ≤ n + 1 := le_add_of_nonneg_left n.cast_nonneg
  simp only [critHits, hFloor, hCeil, hNext]
  push_cast
  exact max_eq_left hOne

theorem isMean_critHits (rate : K) : (critHits rate).IsMean (critChance rate) := by
  have hSplit : (critHits rate).expected = (critHits rate).lower + critChance rate := by
    change max rate 0 = Number.floor (max rate 0) + (max rate 0 - Number.floor (max rate 0))
    ring
  obtain ⟨-, -, hNonneg, -⟩ := critChance_spec rate
  unfold Spread.IsMean
  rw [hSplit]
  -- At a whole rate the higher outcome has no probability, and it need not be the lower one and one more.
  rcases hNonneg.eq_or_lt with hWhole | hPart
  · rw [← hWhole]
    ring
  · rw [higher_critHits hPart]
    ring

theorem critFactors_eq (rate critDamage : K) :
    critFactors rate critDamage = (critHits rate).map fun hits => (critDamage - 1) * hits + 1 := by
  simp only [critFactors, critHits, Spread.map, zero_eq, one_eq, greatest_eq_max, mul_comm (critDamage - 1),
    add_comm (1 : K)]

theorem isMean_critFactors (rate critDamage : K) :
    (critFactors rate critDamage).IsMean (critChance rate) := by
  rw [critFactors_eq]
  exact (isMean_critHits rate).map_affine fun _ => rfl

/-! ## The grid of a hit -/

/-- The columns of a grid, by the outcome of triggers. -/
def DamageGrid.columns {α : Type} (g : DamageGrid α) : Spread (Spread α) :=
  ⟨g.rows.map Spread.lower, g.rows.map Spread.expected, g.rows.map Spread.higher⟩

namespace DamageGrid

/-- The expectations of a grid are means, over triggers in each row and over critical hits in each column. -/
structure IsMean (f t : K) (g : DamageGrid K) : Prop where
  rows : ∀ row ∈ g.rows.toList, row.IsMean t
  columns : ∀ column ∈ g.columns.toList, column.IsMean f

/-- The mean of the corners of a grid, each with its probability. -/
def meanOfCorners (f t : K) (g : DamageGrid K) : K :=
  (1 - f) * (1 - t) * g.get .noCritNoTrigger + (1 - f) * t * g.get .triggerNoCrit +
    f * (1 - t) * g.get .critNoTrigger + f * t * g.get .critTrigger

/-- The centre is the mean of the column in the middle, whose ends are the means of the outer rows. -/
theorem IsMean.expected_eq {f t : K} {g : DamageGrid K} (h : g.IsMean f t) :
    g.expected = g.meanOfCorners f t := by
  have hLower : g.rows.lower.IsMean t := h.rows _ List.mem_cons_self
  have hHigher : g.rows.higher.IsMean t := h.rows _ (by simp [Spread.toList])
  have hCentre : g.columns.expected.IsMean f := h.columns _ (by simp [Spread.toList])
  calc g.expected
      = (1 - f) * g.rows.lower.expected + f * g.rows.higher.expected := hCentre
    _ = (1 - f) * ((1 - t) * g.rows.lower.lower + t * g.rows.lower.higher) +
          f * ((1 - t) * g.rows.higher.lower + t * g.rows.higher.higher) := by rw [hLower, hHigher]
    _ = g.meanOfCorners f t := by
        simp only [meanOfCorners, get]
        ring

end DamageGrid

namespace Attack

variable (a : Attack K) (w : WeaponStats K) (damageType : String) (multiplier : K)

/-- A trigger that does not count at all is not expected to count either. -/
theorem isMean_triggerShares : (a.triggerShares w damageType).IsMean w.triggerRate := by
  unfold triggerShares
  split
  · simp only [Spread.IsMean, zero_eq, one_eq]
    ring
  · exact Spread.isMean_same _ _

/-- The damage for a factor of critical hits and a share of a trigger. -/
def cell (crit share : K) : K :=
  (multiplier * w.attack * (1 + w.triggerMultiplier * share) + multiplier * a.attributes.get .attack) *
    crit * a.weaponFactor w

theorem weaponDamage_eq_cells :
    a.weaponDamage w damageType multiplier = ⟨(critFactors w.critRate w.critDamage).map fun crit =>
      (a.triggerShares w damageType).map (a.cell w multiplier crit)⟩ := by
  simp only [weaponDamage, one_eq]
  rfl

theorem isMean_rows :
    ∀ row ∈ (a.weaponDamage w damageType multiplier).rows.toList, row.IsMean w.triggerRate := by
  rw [weaponDamage_eq_cells]
  refine Spread.forall_mem_map_toList _ fun crit => ?_
  refine (a.isMean_triggerShares w damageType).map_affine
    (u := multiplier * w.attack * w.triggerMultiplier * crit * a.weaponFactor w)
    (v := (multiplier * w.attack + multiplier * a.attributes.get .attack) * crit * a.weaponFactor w) ?_
  intro share
  rw [cell]
  ring

theorem columns_weaponDamage :
    (a.weaponDamage w damageType multiplier).columns = (a.triggerShares w damageType).map fun share =>
      (critFactors w.critRate w.critDamage).map fun crit => a.cell w multiplier crit share := by
  rw [weaponDamage_eq_cells]
  rfl

theorem isMean_columns :
    ∀ column ∈ (a.weaponDamage w damageType multiplier).columns.toList,
      column.IsMean (critChance w.critRate) := by
  rw [columns_weaponDamage]
  refine Spread.forall_mem_map_toList _ fun share => ?_
  refine (isMean_critFactors w.critRate w.critDamage).map_affine
    (u := a.cell w multiplier 1 share) (v := 0) ?_
  intro crit
  rw [cell, cell]
  ring

/-- An enemy that does not mind the trigger takes the same damage with it and without it. -/
theorem rows_of_not_acceptsTrigger (h : a.enemy.acceptsTrigger damageType = false) :
    ∀ row ∈ (a.weaponDamage w damageType multiplier).rows.toList, row = .same row.lower := by
  rw [weaponDamage_eq_cells]
  refine Spread.forall_mem_map_toList _ fun crit => ?_
  rw [triggerShares, h]
  rfl

/-- The expectations in the grid of a weapon hit: each row is a mean with the rate of triggers and each column a
mean with the chance of one critical hit more than there are certain. So the centre is the mean of the four
corners. If the enemy does not mind the trigger, its outcome makes no difference. -/
theorem weaponDamage_isMean :
    (∃ n : ℕ, max w.critRate 0 = n + critChance w.critRate ∧
        0 ≤ critChance w.critRate ∧ critChance w.critRate < 1) ∧
      (a.weaponDamage w damageType multiplier).IsMean (critChance w.critRate) w.triggerRate ∧
      (a.weaponDamage w damageType multiplier).expected =
        (a.weaponDamage w damageType multiplier).meanOfCorners (critChance w.critRate) w.triggerRate ∧
      (a.enemy.acceptsTrigger damageType = false →
        ∀ row ∈ (a.weaponDamage w damageType multiplier).rows.toList, row = .same row.lower) := by
  have hMean : (a.weaponDamage w damageType multiplier).IsMean (critChance w.critRate) w.triggerRate :=
    ⟨a.isMean_rows w damageType multiplier, a.isMean_columns w damageType multiplier⟩
  exact ⟨critChance_spec _, hMean, hMean.expected_eq, a.rows_of_not_acceptsTrigger w damageType multiplier⟩

section

open scoped Exact

/-- An attack on an enemy that minds one type of damage. -/
def thrust : Attack ℚ where
  attributes := (AttributeSet.base).set .attack 20
  enemy := { Enemy.dummy 80 with vulnerable := some "贯穿" }
  health := 1
  defense := 1

/-- A weapon with one critical hit for certain and another one half of the time. -/
def rapier : WeaponStats ℚ :=
  { WeaponStats.zero with
    attack := 100
    critRate := 3 / 2
    critDamage := 2
    triggerRate := 2 / 5
    triggerMultiplier := 1 }

/-- The expected damage is that of the four outcomes together. The trigger of another type of damage is lost. -/
theorem weaponDamage_isMean_thrust :
    critChance rapier.critRate = 1 / 2 ∧
      (thrust.weaponDamage rapier "贯穿" 1).expected =
        (1 - 1 / 2) * (1 - 2 / 5) * 240 + (1 - 1 / 2) * (2 / 5) * 440 + 1 / 2 * (1 - 2 / 5) * 360 +
          1 / 2 * (2 / 5) * 660 ∧
      thrust.enemy.acceptsTrigger "切割" = false ∧
      ∀ row ∈ (thrust.weaponDamage rapier "切割" 1).rows.toList, row = .same row.lower := by
  have hChance : critChance rapier.critRate = 1 / 2 := by decide +kernel
  have hCorners : [Outcome.noCritNoTrigger, .triggerNoCrit, .critNoTrigger, .critTrigger].map
      (thrust.weaponDamage rapier "贯穿" 1).get = [240, 440, 360, 660] := by decide +kernel
  simp only [List.map_cons, List.map_nil, List.cons.injEq, and_true] at hCorners
  obtain ⟨hNone, hTrigger, hCrit, hBoth⟩ := hCorners
  obtain ⟨-, -, hMean, -⟩ := thrust.weaponDamage_isMean rapier "贯穿" 1
  obtain ⟨-, -, -, hSame⟩ := thrust.weaponDamage_isMean rapier "切割" 1
  rw [DamageGrid.meanOfCorners, hChance, hNone, hTrigger, hCrit, hBoth] at hMean
  exact ⟨hChance, hMean, by decide, hSame (by decide)⟩

end

end Attack

end Loadout
