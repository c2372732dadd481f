import Loadout.Build.Score
import Loadout.Number.Binary
import Loadout.Proofs.Number.Order

/-!
# Gains order scores

A gain is a share of the score that it is measured against. Floating-point numbers round it, and its
quotient may be too large to be stored, but the greater of two scores never has the smaller gain. So a
gain that exceeds another one belongs to a greater score, wherever both are measured against the same
score and that is not negative.

* `relativeGain_mono`: gains keep the order of scores;
* `lt_of_relativeGain`, `lt_of_relativeGain_of_relativeGain`: what a gain that is large enough says
  about scores.
-/

namespace Loadout

open Number.Binary

/-- A score that may be compared with others: a number from zero on that is not infinite. -/
structure IsPlain (x : Float) : Prop where
  isFinite : x.isFinite = true
  nonneg : 0.0 ≤ x

namespace IsPlain

variable {x : Float}

instance : Decidable (IsPlain x) :=
  decidable_of_iff (x.isFinite = true ∧ 0.0 ≤ x) ⟨fun h => ⟨h.1, h.2⟩, fun h => ⟨h.1, h.2⟩⟩

theorem proper (h : IsPlain x) : Proper x := proper_of_isFinite h.isFinite

theorem place_nonneg (h : IsPlain x) : 0 ≤ place x := by
  have hPlace := (le_iff_place proper_zero h.proper).mp h.nonneg
  rwa [place_zero] at hPlace

theorem beq_zero_iff (h : IsPlain x) : (x == 0.0) = true ↔ place x = 0 := by
  rw [beq_iff_place h.proper proper_zero, place_zero]

end IsPlain

section

variable {r s t : Float}

theorem relativeGain_of_zero (h : (r == 0.0) = true) : relativeGain r s = s - r := if_pos h

theorem relativeGain_of_ne_zero (h : ¬ (r == 0.0) = true) : relativeGain r s = s / r - 1.0 := if_neg h

theorem proper_relativeGain (hr : IsPlain r) (hs : s.isFinite = true) : Proper (relativeGain r s) := by
  by_cases hZero : (r == 0.0) = true
  · rw [relativeGain_of_zero hZero]
    exact proper_sub (proper_of_isFinite hs) hr.isFinite
  · rw [relativeGain_of_ne_zero hZero]
    exact proper_sub (place_div hs hr.isFinite (mt hr.beq_zero_iff.mpr hZero)).1 (by decide)

/-- The greater of two scores has the greater gain. -/
theorem relativeGain_mono (hr : IsPlain r) (ht : t.isFinite = true) (hs : s.isFinite = true)
    (h : place t ≤ place s) : place (relativeGain r t) ≤ place (relativeGain r s) := by
  by_cases hZero : (r == 0.0) = true
  · rw [relativeGain_of_zero hZero, relativeGain_of_zero hZero]
    exact place_sub_le (proper_of_isFinite ht) (proper_of_isFinite hs) hr.isFinite h
  · have hne : place r ≠ 0 := mt hr.beq_zero_iff.mpr hZero
    have hPos : 0 < place r := lt_of_le_of_ne hr.place_nonneg hne.symm
    rw [relativeGain_of_ne_zero hZero, relativeGain_of_ne_zero hZero]
    exact place_sub_le (place_div ht hr.isFinite hne).1 (place_div hs hr.isFinite hne).1 (by decide)
      (place_div_le ht hs hr.isFinite hPos h)

/-- A score has no gain against itself. -/
theorem place_relativeGain_self (hr : IsPlain r) : place (relativeGain r r) = 0 := by
  by_cases hZero : (r == 0.0) = true
  · rw [relativeGain_of_zero hZero]
    exact place_sub_self hr.isFinite
  · have hne : place r ≠ 0 := mt hr.beq_zero_iff.mpr hZero
    have hPos : 0 < place r := lt_of_le_of_ne hr.place_nonneg hne.symm
    have hOne : place (r / r) = place 1.0 := by rw [place_div_self hr.isFinite hPos, place_one]
    have hProper := (place_div hr.isFinite hr.isFinite hne).1
    have hFinite : (1.0 : Float).isFinite = true := by decide
    have hLow := place_sub_le (proper_of_isFinite hFinite) hProper hFinite hOne.ge
    have hHigh := place_sub_le hProper (proper_of_isFinite hFinite) hFinite hOne.le
    rw [place_sub_self hFinite] at hLow hHigh
    rw [relativeGain_of_ne_zero hZero]
    exact le_antisymm hHigh hLow

/-- A gain that exceeds something from zero on is the gain of a greater score. -/
theorem lt_of_relativeGain {least : Float} (hr : IsPlain r) (ht : t.isFinite = true)
    (hLeast : IsPlain least) (h : ¬ relativeGain r t ≤ least) : r < t := by
  apply lt_of_not_le (proper_of_isFinite ht) hr.proper
  intro hle
  apply h
  apply (le_iff_place (proper_relativeGain hr ht) hLeast.proper).mpr
  have hle' := (le_iff_place (proper_of_isFinite ht) hr.proper).mp hle
  calc place (relativeGain r t) ≤ place (relativeGain r r) := relativeGain_mono hr ht hr.isFinite hle'
    _ = 0 := place_relativeGain_self hr
    _ ≤ place least := hLeast.place_nonneg

/-- Of two gains against the same score, one that exceeds the other is the gain of a greater score. -/
theorem lt_of_relativeGain_of_relativeGain {slack : Float} (hr : IsPlain r) (hs : s.isFinite = true)
    (ht : t.isFinite = true) (hSlack : IsPlain slack)
    (h : ¬ relativeGain r t ≤ relativeGain r s + slack) : s < t := by
  have hProper := proper_relativeGain hr hs
  apply lt_of_not_le (proper_of_isFinite ht) (proper_of_isFinite hs)
  intro hle
  apply h
  apply (le_iff_place (proper_relativeGain hr ht) (proper_add hProper hSlack.isFinite)).mpr
  have hle' := (le_iff_place (proper_of_isFinite ht) (proper_of_isFinite hs)).mp hle
  have hZero : place 0.0 ≤ place slack := by
    rw [place_zero]
    exact hSlack.place_nonneg
  calc place (relativeGain r t) ≤ place (relativeGain r s) := relativeGain_mono hr ht hs hle'
    _ = place (relativeGain r s + 0.0) := (place_add_zero hProper).symm
    _ ≤ place (relativeGain r s + slack) := place_add_le hProper (by decide) hSlack.isFinite hZero

end

end Loadout
