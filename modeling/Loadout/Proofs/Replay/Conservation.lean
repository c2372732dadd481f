import Mathlib.Algebra.Order.Field.Rat
import Mathlib.Tactic.Ring
import Loadout.Proofs.Build.Reordering
import Loadout.Proofs.Damage.Defense
import Loadout.Proofs.Steps

/-!
# Damage is what the pools lose

In exact arithmetic a replay keeps books of its enemy. An action takes from the pools what its report says it
dealt, and neither pool grows or falls below zero. What the action would do by itself may be negative; a hit
takes nothing then. A negative mitigation would give health back, but the share that defense lets through lies
between zero and one.

* `defenseMultiplier_mem`: the share that defense lets through;
* `Enemy.Takes`, `Enemy.takeHit_takes`: one hit;
* `Build.playAction_takes`: one action;
* `Build.Played`, `Build.playAll_played`: a run as a sequence of enemies, each left behind by one action;
* `Build.replay_conserves`: the whole replay.
-/

namespace Loadout

variable {K : Type} [ExactNumber K]

open ExactNumber (zero_eq greatest_eq_max least_eq_min sum_eq)

/-- Defense lets through all or a share of a hit. -/
theorem defenseMultiplier_mem (defense ignore : K) (levels : Int) :
    0 ≤ defenseMultiplier defense ignore levels ∧ defenseMultiplier defense ignore levels ≤ 1 :=
  ⟨(defenseMultiplier_pos ..).le, defenseMultiplier_le_one ..⟩

/-! ## One hit -/

namespace Enemy

/-- A hit takes from each pool what it deals, at most what is there, and from health only when the shield is
gone. -/
structure Takes (e : Enemy K) (hit : PoolHit K) (e' : Enemy K) : Prop where
  shield_dealt : hit.shield = e.shield - e'.shield
  health_dealt : hit.health = e.health - e'.health
  shield_nonneg : 0 ≤ e'.shield
  health_nonneg : 0 ≤ e'.health
  shield_le : e'.shield ≤ e.shield
  health_le : e'.health ≤ e.health
  shield_eq_zero : hit.health ≠ 0 → e'.shield = 0

variable {e e' : Enemy K}

theorem takeHit_takes (hShield : 0 ≤ e.shield) (hHealth : 0 ≤ e.health) (raw : K) {mitigation : K}
    (hMitigation : 0 ≤ mitigation) :
    e.Takes (e.takeHit raw mitigation).2 (e.takeHit raw mitigation).1 := by
  unfold takeHit
  simp only [zero_eq, greatest_eq_max, least_eq_min]
  have hRaw : 0 ≤ max raw 0 := le_max_right _ _
  generalize max raw 0 = raw at hRaw
  have hRest : 0 ≤ (raw - min raw e.shield) * mitigation :=
    mul_nonneg (sub_nonneg.mpr (min_le_left _ _)) hMitigation
  refine ⟨?_, ?_, ?_, ?_, ?_, ?_, ?_⟩
  · ring
  · ring
  · exact sub_nonneg.mpr (min_le_right _ _)
  · exact sub_nonneg.mpr (min_le_right _ _)
  · exact sub_le_self _ (le_min hRaw hShield)
  · exact sub_le_self _ (le_min hRest hHealth)
  · intro hDealt
    -- A hit that the shield takes in full leaves nothing for health.
    rcases le_or_gt raw e.shield with h | h
    · exact absurd (by rw [min_eq_left h, sub_self, zero_mul, min_eq_left hHealth]) hDealt
    · rw [min_eq_right h.le, sub_self]

/-- Nothing can be taken where nothing is left. -/
theorem Takes.of_empty {hit : PoolHit K} (h : e.Takes hit e') (hShield : e.shield = 0)
    (hHealth : e.health = 0) : hit.shield = 0 ∧ hit.health = 0 ∧ e'.shield = 0 ∧ e'.health = 0 := by
  have hShield' : e'.shield = 0 := le_antisymm (h.shield_le.trans_eq hShield) h.shield_nonneg
  have hHealth' : e'.health = 0 := le_antisymm (h.health_le.trans_eq hHealth) h.health_nonneg
  refine ⟨?_, ?_, hShield', hHealth'⟩
  · rw [h.shield_dealt, hShield, hShield', sub_self]
  · rw [h.health_dealt, hHealth, hHealth', sub_self]

end Enemy

/-! ## A run -/

/-- What is lost one after another adds up to what was there less what is left. -/
theorem sum_losses {α : Type} {g : α → K} {f : Nat → K} {xs : List α}
    (h : ∀ i (hi : i < xs.length), g xs[i] = f i - f (i + 1)) :
    Number.sum (xs.map g) = f 0 - f xs.length := by
  rw [sum_eq]
  induction xs generalizing f with
  | nil => rw [List.map_nil, List.sum_nil, List.length_nil, sub_self]
  | cons x rest ih =>
    have hFirst : g x = f 0 - f 1 := h 0 (Nat.zero_lt_succ _)
    have hRest : (rest.map g).sum = f 1 - f (rest.length + 1) :=
      ih (f := fun i => f (i + 1)) fun i hi => h (i + 1) (Nat.succ_lt_succ hi)
    rw [List.map_cons, List.sum_cons, hFirst, hRest, List.length_cons, sub_add_sub_cancel]

namespace Build

variable {b : Build K} {t : Timeline K}

theorem playAction_takes {e e' : Enemy K} {a : ActionItem K} {report : ActionReport K}
    (h : b.playAction t e a = .ok (e', report)) (hShield : 0 ≤ e.shield) (hHealth : 0 ≤ e.health) :
    e.Takes report.dealt e' := by
  obtain ⟨s, -, h⟩ := bind_eq_ok_iff.mp h
  cases h
  exact Enemy.takeHit_takes hShield hHealth _ (defenseMultiplier_mem ..).1

/-- The enemies before, between and after some actions: each action is played against one of them and leaves
the next one. -/
structure Played (b : Build K) (t : Timeline K) (actions : List (ActionItem K))
    (reports : List (ActionReport K)) (enemies : Nat → Enemy K) : Prop where
  length_eq : reports.length = actions.length
  step : ∀ i (hi : i < actions.length) (hi' : i < reports.length),
    b.playAction t (enemies i) actions[i] = .ok (enemies (i + 1), reports[i])

theorem playAll_played {e e' : Enemy K} {actions : List (ActionItem K)} {reports : List (ActionReport K)}
    (h : b.playAll t e actions = .ok (e', reports)) :
    ∃ enemies, Played b t actions reports enemies ∧ enemies 0 = e ∧ enemies actions.length = e' := by
  induction actions generalizing e reports with
  | nil =>
    cases h
    exact ⟨fun _ => e', ⟨rfl, fun i hi => absurd hi (Nat.not_lt_zero i)⟩, rfl, rfl⟩
  | cons a rest ih =>
    obtain ⟨⟨after, report⟩, hFirst, h⟩ := bind_eq_ok_iff.mp h
    obtain ⟨⟨last, others⟩, hRest, h⟩ := bind_eq_ok_iff.mp h
    cases h
    -- The enemies of the other actions come one place later, behind the one that the first action met.
    obtain ⟨enemies, hPlayed, rfl, hLast⟩ := ih hRest
    refine ⟨fun i => i.casesOn e enemies, ⟨congrArg (· + 1) hPlayed.length_eq, ?_⟩, rfl, hLast⟩
    rintro (_ | i) hi hi'
    · exact hFirst
    · exact hPlayed.step i (Nat.lt_of_succ_lt_succ hi) (Nat.lt_of_succ_lt_succ hi')

section Played

variable {actions : List (ActionItem K)} {reports : List (ActionReport K)} {enemies : Nat → Enemy K}

theorem Played.nonneg (h : Played b t actions reports enemies) (hShield : 0 ≤ (enemies 0).shield)
    (hHealth : 0 ≤ (enemies 0).health) {i : Nat} (hi : i ≤ reports.length) :
    0 ≤ (enemies i).shield ∧ 0 ≤ (enemies i).health := by
  induction i with
  | zero => exact ⟨hShield, hHealth⟩
  | succ i ih =>
    obtain ⟨hShield, hHealth⟩ := ih (Nat.le_of_succ_le hi)
    have hTakes := playAction_takes (h.step i (h.length_eq ▸ hi) hi) hShield hHealth
    exact ⟨hTakes.shield_nonneg, hTakes.health_nonneg⟩

theorem Played.takes (h : Played b t actions reports enemies) (hShield : 0 ≤ (enemies 0).shield)
    (hHealth : 0 ≤ (enemies 0).health) (i : Nat) (hi : i < reports.length) :
    (enemies i).Takes reports[i].dealt (enemies (i + 1)) := by
  obtain ⟨hShield, hHealth⟩ := h.nonneg hShield hHealth hi.le
  exact playAction_takes (h.step i (h.length_eq ▸ hi) hi) hShield hHealth

/-- An enemy whose pools are empty keeps them so, and nothing is dealt to it any more. -/
theorem Played.empty (h : Played b t actions reports enemies) (hShield : 0 ≤ (enemies 0).shield)
    (hHealth : 0 ≤ (enemies 0).health) {i : Nat} (hShieldEmpty : (enemies i).shield = 0)
    (hHealthEmpty : (enemies i).health = 0) {j : Nat} (hij : i ≤ j) (hj : j < reports.length) :
    reports[j].dealt.shield = 0 ∧ reports[j].dealt.health = 0 := by
  have hEmpty : (enemies j).shield = 0 ∧ (enemies j).health = 0 := by
    induction j, hij using Nat.le_induction with
    | base => exact ⟨hShieldEmpty, hHealthEmpty⟩
    | succ j hij ih =>
      obtain ⟨hShieldEmpty, hHealthEmpty⟩ := ih (Nat.lt_of_succ_lt hj)
      exact ((h.takes hShield hHealth j (Nat.lt_of_succ_lt hj)).of_empty hShieldEmpty hHealthEmpty).2.2
  obtain ⟨hDealtShield, hDealtHealth, -⟩ := (h.takes hShield hHealth j hj).of_empty hEmpty.1 hEmpty.2
  exact ⟨hDealtShield, hDealtHealth⟩

end Played

/-- A replay against pools that are not negative. Its actions lead from the enemy of the build to the reported
one; what they deal to a pool is what the pool loses, and the reported total is what both lose. -/
theorem replay_conserves {report : ReplayReport K} (h : b.replay t = .ok report)
    (hShield : 0 ≤ b.enemy.shield) (hHealth : 0 ≤ b.enemy.health) :
    ∃ enemies, Played b t t.actions report.actions enemies ∧
      enemies 0 = b.enemy ∧ enemies report.actions.length = report.enemy ∧
      (∀ i (hi : i < report.actions.length),
        (enemies i).Takes report.actions[i].dealt (enemies (i + 1))) ∧
      (∀ i, (enemies i).shield = 0 → (enemies i).health = 0 →
        ∀ j (hj : j < report.actions.length), i ≤ j →
          report.actions[j].dealt.shield = 0 ∧ report.actions[j].dealt.health = 0) ∧
      Number.sum (report.actions.map (·.dealt.shield)) = b.enemy.shield - report.enemy.shield ∧
      Number.sum (report.actions.map (·.dealt.health)) = b.enemy.health - report.enemy.health ∧
      report.total = (b.enemy.shield - report.enemy.shield) + (b.enemy.health - report.enemy.health) ∧
      report.total ≤ b.enemy.shield + b.enemy.health := by
  obtain ⟨⟨e, reports⟩, hAll, h⟩ := bind_eq_ok_iff.mp h
  cases h
  obtain ⟨enemies, hPlayed, hStart, hLast⟩ := playAll_played hAll
  rw [← hPlayed.length_eq] at hLast
  rw [← hStart] at hShield hHealth ⊢
  have hTakes := hPlayed.takes hShield hHealth
  have hFinal := hPlayed.nonneg hShield hHealth le_rfl
  rw [hLast] at hFinal
  have hShieldSum : Number.sum (reports.map (·.dealt.shield)) = (enemies 0).shield - e.shield := by
    rw [← hLast]
    exact sum_losses (f := fun i => (enemies i).shield) fun i hi => (hTakes i hi).shield_dealt
  have hHealthSum : Number.sum (reports.map (·.dealt.health)) = (enemies 0).health - e.health := by
    rw [← hLast]
    exact sum_losses (f := fun i => (enemies i).health) fun i hi => (hTakes i hi).health_dealt
  have hTotal : Number.sum (reports.map (·.dealt.total)) =
      ((enemies 0).shield - e.shield) + ((enemies 0).health - e.health) := by
    rw [← hShieldSum, ← hHealthSum, sum_eq, sum_eq, sum_eq, ← List.sum_map_add]
    rfl
  refine ⟨enemies, hPlayed, rfl, hLast, hTakes, ?_, hShieldSum, hHealthSum, hTotal, ?_⟩
  · intro i hShieldEmpty hHealthEmpty j hj hij
    exact hPlayed.empty hShield hHealth hShieldEmpty hHealthEmpty hij hj
  · rw [hTotal]
    exact add_le_add (sub_le_self _ hFinal.1) (sub_le_self _ hFinal.2)

section

open scoped Exact

/-- An enemy with a shield. -/
def sentry : Enemy ℚ where
  name := "哨卫"
  level := 80
  defense := 300
  resistance := 0
  maxHealth := 200
  maxShield := 150
  health := 200
  shield := 150
  pool := .shield
  staggered := false
  vulnerable := none

/-- Three attacks, with a buff from the second one on. -/
def bout : Timeline ℚ where
  items := [.action ⟨"刀", 0, 0, 0⟩, .buff ⟨"激励", none, 1, 10, 0⟩, .action ⟨"刀", 2, 0, 0⟩,
    .action ⟨"刀", 3, 0, 0⟩]

/-- The first attack breaks the shield, the second one ends it, and the third one does nothing. -/
theorem replay_conserves_sentry : ∃ start report, ofOptions duel .default dueling = .ok start ∧
    (start.runAll [.setEnemy sentry]).replay bout = .ok report ∧
    0 ≤ sentry.shield ∧ 0 ≤ sentry.health ∧
    report.actions.map (fun a => (a.dealt.shield, a.dealt.health)) = [(150, 165), (0, 35), (0, 0)] ∧
    report.total = (sentry.shield - report.enemy.shield) + (sentry.health - report.enemy.health) ∧
    report.total ≤ sentry.shield + sentry.health := by
  obtain ⟨start, hStart⟩ : ∃ start, ofOptions duel .default dueling = .ok start := ⟨_, rfl⟩
  have hDealt : ((start.runAll [.setEnemy sentry]).replay bout).toOption.map (fun report =>
      report.actions.map fun a => (a.dealt.shield, a.dealt.health)) = some [(150, 165), (0, 35), (0, 0)] := by
    cases hStart
    decide +kernel
  cases hReplay : (start.runAll [.setEnemy sentry]).replay bout with
  | error e =>
    rw [hReplay] at hDealt
    cases hDealt
  | ok report =>
    rw [hReplay] at hDealt
    obtain ⟨_, -, -, -, -, -, -, -, hTotal, hLe⟩ :=
      replay_conserves hReplay (by decide : 0 ≤ sentry.shield) (by decide : 0 ≤ sentry.health)
    exact ⟨start, report, hStart, hReplay, by decide, by decide, Option.some.inj hDealt, hTotal, hLe⟩

end

end Build

end Loadout
