import Loadout.Number

/-!
# Levels

Characters, weapons and monsters are stored at the highest level. Their stats at a lower level
follow one curve; what has ranks instead of levels grows along a straight line.
-/

namespace Loadout.Level

/-- The stats at each level, in ten-thousandths of those at the first level. -/
def curve : List Nat := [
  10000, 10422, 10860, 11305, 11774, 13988, 14474, 15012, 15589, 16157,
  18331, 18921, 19527, 20162, 20813, 23128, 23809, 24505, 25186, 25897,
  28339, 29053, 29795, 30538, 31288, 33098, 35538, 36327, 37117, 37921,
  41028, 41842, 42765, 43725, 44705, 48047, 49053, 50059, 51021, 51933,
  55294, 56210, 57141, 58079, 59032, 62508, 63480, 64451, 65437, 66416,
  68191, 71079, 72107, 73127, 74155, 77876, 78938, 79999, 81061, 85685,
  86863, 88030, 89214, 90424, 97101, 97488, 98684, 99916, 101107, 102122,
  112360, 113504, 114590, 115667, 119809, 120930, 122051, 123222, 124372, 125522]

/-- The lowest level. -/
def least : Nat := 1

/-- The highest level, at which stats are stored. -/
def greatest : Nat := 80

theorem least_le_greatest : least ≤ greatest := by decide

/-- The level nearest to `n` between two bounds. -/
def clamp (low high n : Nat) : Nat := if n < low then low else if high < n then high else n

theorem clamp_mem {low high : Nat} (h : low ≤ high) (n : Nat) :
    low ≤ clamp low high n ∧ clamp low high n ≤ high := by
  unfold clamp
  split
  · omega
  · split <;> omega

theorem clamp_of_mem {low high n : Nat} (hLow : low ≤ n) (hHigh : n ≤ high) :
    clamp low high n = n := by
  unfold clamp
  rw [if_neg (by omega), if_neg (by omega)]

theorem clamp_clamp {low high : Nat} (h : low ≤ high) (n : Nat) :
    clamp low high (clamp low high n) = clamp low high n := by
  obtain ⟨hLow, hHigh⟩ := clamp_mem h n
  exact clamp_of_mem hLow hHigh

variable {K : Type} [Number K]

/-- A point of the curve. -/
def point (level : Nat) : K :=
  OfScientific.ofScientific (curve[level - 1]?.getD 0) true 4

/-- The share of the stored stats that is there at a level. -/
def scale (level : Nat) : K :=
  point (clamp least greatest level) / point greatest

/-- The share of the stored bonuses that is there at a rank. -/
def ramp (rank greatest : Nat) : K :=
  ((rank : K) + 1.0) / ((greatest : K) + 1.0)

end Loadout.Level
