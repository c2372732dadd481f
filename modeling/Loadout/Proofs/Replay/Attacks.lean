import Mathlib.Data.Set.Card
import Mathlib.Order.Interval.Finset.Nat
import Loadout.Proofs.Number.Exact
import Loadout.Timeline

/-!
# The attacks of a magazine weapon

A weapon empties its magazine at its rate, reloads and starts over. The number of attacks in a duration is
computed from the number of full cycles and from what is left of the duration after them. Here the attacks are
followed one by one instead: each takes its share of a second, and a reload comes before the next one whenever
the magazine is empty. In exact arithmetic the number is that of the attacks that are over in time, and one if
there are none.

* `attackEnd`: when an attack is over, and `attackEnd_succ`: what lies between two attacks;
* `attackCount_eq_max`: the number as full magazines and a part of one;
* `Spans.attackEnd_le_iff`: the attacks up to this number are over in time and no others;
* `attackCount?_eq`: there is nothing to divide by zero;
* `attackCount_spec`: all this about one weapon.
-/

namespace Loadout

variable {K : Type} [ExactNumber K]

open ExactNumber (zero_eq one_eq beq_iff greatest_eq_max least_eq_min exists_floor_eq)

/-- The time from one full magazine to the next one. -/
def cycleTime (rate magazine reload : K) : K := magazine / rate + max reload 0

/-- When an attack is over if the weapon does not pause, the first attack having the number one. A cycle has
passed for each magazine that was emptied before. -/
def attackEnd (rate : K) (magazine : ℕ) (reload : K) (n : ℕ) : K :=
  ((n - 1) / magazine : ℕ) * cycleTime rate magazine reload + ((n - 1) % magazine + 1 : ℕ) / rate

/-- The attacks that are over by a time. -/
def attacksBy (rate : K) (magazine : ℕ) (reload time : K) : Set ℕ :=
  {n | 1 ≤ n ∧ attackEnd rate magazine reload n ≤ time}

section

variable {rate : K} {magazine : ℕ} {reload : K}

theorem cycleTime_pos {magazine : K} (hRate : 0 < rate) (hMagazine : 0 < magazine) :
    0 < cycleTime rate magazine reload :=
  add_pos_of_pos_of_nonneg (div_pos hMagazine hRate) (le_max_right _ _)

/-! ## One attack after the other -/

/-- An attack by its place in its magazine. -/
theorem attackEnd_add {q i : ℕ} (hi : i < magazine) :
    attackEnd rate magazine reload (q * magazine + i + 1) =
      q * cycleTime rate magazine reload + (i + 1) / rate := by
  have hPos : 0 < magazine := Nat.zero_lt_of_lt hi
  have hQuotient : (q * magazine + i) / magazine = q := by
    rw [mul_comm, Nat.mul_add_div hPos, Nat.div_eq_of_lt hi, add_zero]
  have hRest : (q * magazine + i) % magazine = i := by
    rw [mul_comm, Nat.mul_add_mod, Nat.mod_eq_of_lt hi]
  rw [attackEnd, Nat.add_sub_cancel, hQuotient, hRest, Nat.cast_succ]

/-- The first attack after `q` emptied magazines. -/
theorem attackEnd_first (hMagazine : 1 ≤ magazine) (q : ℕ) :
    attackEnd rate magazine reload (q * magazine + 1) =
      q * cycleTime rate magazine reload + 1 / rate := by
  have hFirst : attackEnd rate magazine reload (q * magazine + 0 + 1) =
      q * cycleTime rate magazine reload + ((0 : ℕ) + 1) / rate := attackEnd_add hMagazine
  rwa [add_zero, Nat.cast_zero, zero_add] at hFirst

/-- Every attack has a place in a magazine. -/
theorem exists_place (hMagazine : 1 ≤ magazine) {n : ℕ} (hn : 1 ≤ n) :
    ∃ q i, i < magazine ∧ n = q * magazine + i + 1 := by
  refine ⟨(n - 1) / magazine, (n - 1) % magazine, Nat.mod_lt _ hMagazine, ?_⟩
  rw [Nat.div_add_mod']
  omega

/-- An attack follows the one before at once, or after a reload if that one was the last of its magazine. -/
theorem attackEnd_succ (hMagazine : 1 ≤ magazine) {n : ℕ} (hn : 1 ≤ n) :
    attackEnd rate magazine reload (n + 1) =
      attackEnd rate magazine reload n + (if magazine ∣ n then max reload 0 else 0) + 1 / rate := by
  obtain ⟨q, i, hi, rfl⟩ := exists_place hMagazine hn
  rw [attackEnd_add hi]
  -- The size of a magazine divides the number of an attack just when the attack is the last of its magazine.
  rcases Nat.lt_or_ge (i + 1) magazine with hNext | hLast
  · have hRest : ¬ magazine ∣ q * magazine + i + 1 := by
      rw [add_assoc, Nat.dvd_add_right (Nat.dvd_mul_left _ _)]
      exact Nat.not_dvd_of_pos_of_lt (Nat.succ_pos i) hNext
    rw [if_neg hRest, add_assoc (q * magazine), attackEnd_add hNext]
    push_cast
    ring
  · have hFull : q * magazine + i + 1 = (q + 1) * magazine := by
      rw [Nat.succ_mul]
      omega
    have hCast : (i : K) + 1 = magazine := by
      exact_mod_cast (by omega : i + 1 = magazine)
    rw [hFull, if_pos (Nat.dvd_mul_left _ _), attackEnd_first hMagazine, hCast, cycleTime]
    push_cast
    ring

theorem attackEnd_lt_succ (hRate : 0 < rate) (hMagazine : 1 ≤ magazine) {n : ℕ} (hn : 1 ≤ n) :
    attackEnd rate magazine reload n < attackEnd rate magazine reload (n + 1) := by
  have hAttack : 0 < 1 / rate := one_div_pos.mpr hRate
  have hReload : 0 ≤ if magazine ∣ n then max reload 0 else 0 := by
    split
    · exact le_max_right _ _
    · exact le_rfl
  rw [attackEnd_succ hMagazine hn]
  linarith

theorem attackEnd_lt {m n : ℕ} (hRate : 0 < rate) (hMagazine : 1 ≤ magazine) (hm : 1 ≤ m) (h : m < n) :
    attackEnd rate magazine reload m < attackEnd rate magazine reload n := by
  induction n, h using Nat.le_induction with
  | base => exact attackEnd_lt_succ hRate hMagazine hm
  | succ n hLess ih => exact ih.trans (attackEnd_lt_succ hRate hMagazine (by omega))

/-! ## Full cycles and the rest -/

/-- A duration as full cycles, and what is left of it as whole attacks. -/
structure Spans (rate : K) (magazine : ℕ) (reload duration : K) (full rest : ℕ) : Prop where
  full_le : full * cycleTime rate magazine reload ≤ duration
  lt_full : duration < (full + 1) * cycleTime rate magazine reload
  rest_le : (rest : K) ≤ (duration - full * cycleTime rate magazine reload) * rate
  lt_rest : (duration - full * cycleTime rate magazine reload) * rate < rest + 1

/-- The attacks are those of the magazines that were emptied in full cycles, and of those in the rest as many as
one magazine has. -/
theorem attackCount_eq_max {duration : K} (hDuration : 0 < duration) (hRate : 0 < rate)
    (hMagazine : 1 ≤ magazine) (reload : K) :
    ∃ full rest, Spans rate magazine reload duration full rest ∧
      attackCount duration rate magazine reload =
        max 1 ((full * magazine + min magazine rest : ℕ) : K) := by
  have hMagazine' : (0 : K) < magazine := Nat.cast_pos.mpr hMagazine
  have hCycle : 0 < cycleTime rate (magazine : K) reload := cycleTime_pos hRate hMagazine'
  obtain ⟨full, hFull, hFullLe, hLtFull⟩ := exists_floor_eq (div_pos hDuration hCycle).le
  rw [le_div_iff₀ hCycle] at hFullLe
  rw [div_lt_iff₀ hCycle] at hLtFull
  have hLeft : 0 ≤ duration - full * cycleTime rate magazine reload := sub_nonneg.mpr hFullLe
  obtain ⟨rest, hRest, hRestLe, hLtRest⟩ := exists_floor_eq (mul_nonneg hLeft hRate.le)
  refine ⟨full, rest, ⟨hFullLe, hLtFull, hRestLe, hLtRest⟩, ?_⟩
  have hFires : (decide (duration ≤ 0) || decide (rate ≤ 0)) = false := by
    simp [hDuration, hRate]
  unfold attackCount
  simp only [zero_eq, one_eq, greatest_eq_max, least_eq_min, hFires, not_le.mpr hMagazine', if_false,
    Bool.false_eq_true, ← cycleTime.eq_1, hFull, hRest]
  push_cast
  rw [max_comm]

namespace Spans

variable {duration : K} {full rest n : ℕ}

/-- The attacks of the full cycles and of the rest are over in time. -/
theorem attackEnd_le (h : Spans rate magazine reload duration full rest) (hRate : 0 < rate)
    (hMagazine : 1 ≤ magazine) (hn : 1 ≤ n) (hLe : n ≤ full * magazine + min magazine rest) :
    attackEnd rate magazine reload n ≤ duration := by
  obtain ⟨q, i, hi, rfl⟩ := exists_place hMagazine hn
  rw [attackEnd_add hi]
  -- A full cycle has time for all attacks of its magazine. The attacks after the last full cycle are in the rest.
  rcases Nat.lt_or_ge q full with hEarlier | hLast
  · have hMagazine' : (0 : K) < magazine := Nat.cast_pos.mpr hMagazine
    have hPlace : ((i : K) + 1) / rate ≤ cycleTime rate magazine reload := by
      have hLeMagazine : (i : K) + 1 ≤ magazine := by exact_mod_cast hi
      exact (div_le_div_of_nonneg_right hLeMagazine hRate.le).trans
        (le_add_of_nonneg_right (le_max_right _ _))
    have hCycles : (q : K) + 1 ≤ full := by exact_mod_cast hEarlier
    calc q * cycleTime rate magazine reload + (i + 1) / rate
        ≤ q * cycleTime rate magazine reload + cycleTime rate magazine reload := by gcongr
      _ = (q + 1) * cycleTime rate magazine reload := by ring
      _ ≤ full * cycleTime rate magazine reload :=
          mul_le_mul_of_nonneg_right hCycles (cycleTime_pos hRate hMagazine').le
      _ ≤ duration := h.full_le
  · obtain rfl : q = full := by
      by_contra hNe
      have hMore : (full + 1) * magazine ≤ q * magazine := Nat.mul_le_mul_right _ (by omega)
      rw [Nat.succ_mul] at hMore
      omega
    have hPlace : (i : K) + 1 ≤ rest := by exact_mod_cast (by omega : i + 1 ≤ rest)
    have hLeft : (i + 1) / rate ≤ duration - q * cycleTime rate magazine reload := by
      rw [div_le_iff₀ hRate]
      exact hPlace.trans h.rest_le
    linarith

/-- The next attack is not. It falls into the rest, or behind it into another cycle. -/
theorem lt_attackEnd_succ (h : Spans rate magazine reload duration full rest) (hRate : 0 < rate)
    (hMagazine : 1 ≤ magazine) :
    duration < attackEnd rate magazine reload (full * magazine + min magazine rest + 1) := by
  rcases Nat.lt_or_ge rest magazine with hInside | hEmpty
  · have hLeft : duration - full * cycleTime rate magazine reload < (rest + 1) / rate := by
      rw [lt_div_iff₀ hRate]
      exact h.lt_rest
    rw [min_eq_right hInside.le, attackEnd_add hInside]
    linarith
  · have hAttack : 0 < 1 / rate := one_div_pos.mpr hRate
    have hNext := h.lt_full
    rw [min_eq_left hEmpty, ← Nat.succ_mul, attackEnd_first hMagazine, Nat.cast_succ]
    linarith

theorem attackEnd_le_iff (h : Spans rate magazine reload duration full rest) (hRate : 0 < rate)
    (hMagazine : 1 ≤ magazine) (hn : 1 ≤ n) :
    attackEnd rate magazine reload n ≤ duration ↔ n ≤ full * magazine + min magazine rest := by
  refine ⟨fun hLe => ?_, h.attackEnd_le hRate hMagazine hn⟩
  by_contra hMore
  have hNext := h.lt_attackEnd_succ hRate hMagazine
  rcases (Nat.succ_le_of_lt (not_le.mp hMore)).eq_or_lt with hEq | hLt
  · rw [← hEq] at hLe
    exact absurd hLe (not_le.mpr hNext)
  · exact absurd hLe (not_le.mpr (hNext.trans (attackEnd_lt hRate hMagazine (Nat.succ_pos _) hLt)))

theorem attacksBy_eq (h : Spans rate magazine reload duration full rest) (hRate : 0 < rate)
    (hMagazine : 1 ≤ magazine) :
    attacksBy rate magazine reload duration = Finset.Icc 1 (full * magazine + min magazine rest) := by
  ext n
  rw [Finset.coe_Icc, Set.mem_Icc]
  exact and_congr_right fun hn => h.attackEnd_le_iff hRate hMagazine hn

end Spans

end

/-! ## Division -/

section

variable {L : Type} [Number L]

/-- A quotient, if the divisor is not zero. -/
def Number.divide? (x y : L) : Option L := if y == 0.0 then none else some (x / y)

/-- The number of attacks if there is no quotient by zero. -/
def attackCount? (duration rate magazine reload : L) : Option L :=
  if duration ≤ 0.0 || rate ≤ 0.0 then some 1.0
  else if magazine ≤ 0.0 then some (Number.greatest (Number.floor (duration * rate)) 1.0)
  else do
    let firing ← Number.divide? magazine rate
    let cycle := firing + Number.greatest reload 0.0
    let cycles ← Number.divide? duration cycle
    let full := Number.floor cycles
    let remaining := duration - full * cycle
    let attacks := full * magazine + Number.least magazine (Number.floor (remaining * rate))
    return Number.greatest attacks 1.0

end

theorem Number.divide?_of_ne_zero {x y : K} (h : y ≠ 0) : divide? x y = some (x / y) := by
  unfold divide?
  rw [zero_eq, if_neg (mt (beq_iff y 0).mp h)]

/-- Nothing is divided by zero, whatever the weapon and the duration. -/
theorem attackCount?_eq (duration rate magazine reload : K) :
    attackCount? duration rate magazine reload = some (attackCount duration rate magazine reload) := by
  unfold attackCount? attackCount
  by_cases hStill : (decide (duration ≤ 0.0) || decide (rate ≤ 0.0)) = true
  · rw [if_pos hStill, if_pos hStill]
  · rw [if_neg hStill, if_neg hStill]
    by_cases hEndless : magazine ≤ 0.0
    · rw [if_pos hEndless, if_pos hEndless]
    · rw [if_neg hEndless, if_neg hEndless]
      simp only [zero_eq, Bool.or_eq_true, decide_eq_true_eq, not_or, not_le] at hStill hEndless
      have hCycle : magazine / rate + Number.greatest reload 0.0 ≠ 0 := by
        rw [zero_eq, greatest_eq_max]
        exact (cycleTime_pos hStill.2 hEndless).ne'
      simp only [Number.divide?_of_ne_zero hStill.2.ne', Number.divide?_of_ne_zero hCycle,
        Option.bind_eq_bind, Option.bind_some]
      rfl

/-! ## The number of attacks -/

theorem attackCount_of_nonpos {duration : K} (h : duration ≤ 0) (rate magazine reload : K) :
    attackCount duration rate magazine reload = 1 := by
  unfold attackCount
  rw [if_pos (by simp [zero_eq, h]), one_eq]

theorem one_le_attackCount (duration rate magazine reload : K) :
    1 ≤ attackCount duration rate magazine reload := by
  unfold attackCount
  extract_lets
  simp only [one_eq, greatest_eq_max]
  split_ifs
  · exact le_rfl
  · exact le_max_right _ _
  · exact le_max_right _ _

/-- For a weapon that fires and has room for whole attacks in its magazine: the attacks that are over by the end
of a duration are counted, there is no division by zero, and a longer duration has no fewer attacks. -/
theorem attackCount_spec {rate : K} (hRate : 0 < rate) {magazine : ℕ} (hMagazine : 1 ≤ magazine)
    (reload : K) :
    (∀ duration, 0 < duration →
      (attacksBy rate magazine reload duration).Finite ∧
        attackCount duration rate magazine reload =
          max 1 ((attacksBy rate magazine reload duration).ncard : K) ∧
        attackCount? duration rate magazine reload =
          some (attackCount duration rate magazine reload)) ∧
      Monotone fun duration => attackCount duration rate magazine reload := by
  have hCount : ∀ duration, 0 < duration →
      (attacksBy rate magazine reload duration).Finite ∧
        attackCount duration rate magazine reload =
          max 1 ((attacksBy rate magazine reload duration).ncard : K) := by
    intro duration hDuration
    obtain ⟨full, rest, hSpans, hEq⟩ := attackCount_eq_max hDuration hRate hMagazine reload
    rw [hSpans.attacksBy_eq hRate hMagazine, Set.ncard_coe_finset, Nat.card_Icc, Nat.add_sub_cancel]
    exact ⟨Finset.finite_toSet _, hEq⟩
  refine ⟨fun duration hDuration => ?_, fun duration duration' hLe => ?_⟩
  · obtain ⟨hFinite, hEq⟩ := hCount duration hDuration
    exact ⟨hFinite, hEq, attackCount?_eq ..⟩
  · rcases le_or_gt duration 0 with hNone | hDuration
    · exact (attackCount_of_nonpos hNone ..).trans_le (one_le_attackCount ..)
    · obtain ⟨-, hEq⟩ := hCount duration hDuration
      obtain ⟨hFinite', hEq'⟩ := hCount duration' (hDuration.trans_le hLe)
      have hSubset : attacksBy rate magazine reload duration ⊆ attacksBy rate magazine reload duration' :=
        fun n hn => ⟨hn.1, hn.2.trans hLe⟩
      dsimp only
      rw [hEq, hEq']
      exact max_le_max le_rfl (Nat.cast_le.mpr (Set.ncard_le_ncard hSubset hFinite'))

section

open scoped Exact

/-- After five seconds two magazines of ten are empty, and the second reload adds no attack. -/
theorem attackCount_spec_emptied : (0 : ℚ) < 5 ∧ 1 ≤ 10 ∧
    attackCount (5 : ℚ) 5 (10 : ℕ) 1 = 20 ∧ attackCount? (5 : ℚ) 5 (10 : ℕ) 1 = some 20 ∧
    (attacksBy (5 : ℚ) 10 1 5).ncard = 20 ∧ (attacksBy (5 : ℚ) 10 1 (59 / 10)).ncard = 20 ∧
    attackCount (5 : ℚ) 5 (10 : ℕ) 1 ≤ attackCount (59 / 10 : ℚ) 5 (10 : ℕ) 1 := by
  obtain ⟨hCount, hMono⟩ := attackCount_spec (by decide : (0 : ℚ) < 5) (by decide : 1 ≤ 10) 1
  have hEmptied : attackCount (5 : ℚ) 5 (10 : ℕ) 1 = 20 := by decide +kernel
  have hReloading : attackCount (59 / 10 : ℚ) 5 (10 : ℕ) 1 = 20 := by decide +kernel
  have hNumber {n : ℕ} (h : max 1 (n : ℚ) = 20) : n = 20 := by
    rcases max_choice 1 (n : ℚ) with hOne | hMany
    · exact absurd (hOne.symm.trans h) (by decide)
    · exact_mod_cast hMany.symm.trans h
  obtain ⟨-, hEq, hDivides⟩ := hCount 5 (by decide)
  obtain ⟨-, hEq', -⟩ := hCount (59 / 10) (by decide +kernel)
  refine ⟨by decide, by decide, hEmptied, hDivides.trans (congrArg some hEmptied),
    hNumber (hEq.symm.trans hEmptied), hNumber (hEq'.symm.trans hReloading), ?_⟩
  exact hMono (by decide +kernel : (5 : ℚ) ≤ 59 / 10)

end

end Loadout
