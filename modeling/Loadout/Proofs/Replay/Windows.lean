import Loadout.Proofs.Number.Extremes
import Loadout.Timeline

/-!
# Windows of buffs

A window is cut short by the next one that starts on its layer, which is looked for among all buffs in no order.
So at any time no window is open on a layer but those that started last, and of these the ones whose own time has
not run out.

* `lt_windowEnd_iff`: when a window ends;
* `reaches_iff`, `reaches_started`: when a window is open, and which buffs decide about it;
* `activeBuffs_spec`: the buffs that are active;
* `activeBuffs_not_by_sum`: sums of start and duration that are no number, or not what the two are worth together.
-/

namespace Loadout

open Number.Binary

namespace Timeline

variable {buffs : List (BuffItem Float)} {layer : Nat} {time : Float} {b : BuffItem Float}

theorem proper_ownEnd (b : BuffItem Float) : Proper (ownEnd b) := by
  unfold ownEnd
  dsimp only
  split
  · next h => exact beq_self_iff.mp h
  · exact proper_infinity

/-- A buff has not run out before its start and its duration together, or ever if they lead to no number. -/
theorem lt_ownEnd_iff : time < ownEnd b ↔ time < b.start + b.duration ∨
    (b.start + b.duration == b.start + b.duration) = false ∧ time < Number.infinity := by
  unfold ownEnd
  dsimp only
  by_cases hNumber : (b.start + b.duration == b.start + b.duration) = true
  · rw [if_pos hNumber]
    simp [hNumber]
  · have hNever : ¬ time < b.start + b.duration := not_lt_of_not_proper_right (mt beq_self_iff.mpr hNumber)
    rw [if_neg hNumber]
    simp [hNumber, hNever]

/-- A time is inside the window of a buff that has started if the buff has not run out and none on its layer
starts in between. -/
theorem lt_windowEnd_iff : time < windowEnd buffs b ↔
    time < ownEnd b ∧ ∀ c ∈ buffs, c.layer = b.layer → b.start < c.start → time < c.start := by
  obtain ⟨later, hLater⟩ : ∃ later, later =
    (buffs.filter fun c => c.layer == b.layer && b.start < c.start).map (·.start) := ⟨_, rfl⟩
  have hMem : (∀ x ∈ later, time < x) ↔
      ∀ c ∈ buffs, c.layer = b.layer → b.start < c.start → time < c.start := by
    simp only [hLater, List.forall_mem_map, List.mem_filter, Bool.and_eq_true, beq_iff_eq,
      decide_eq_true_eq, and_imp]
  have hProper : ∀ x ∈ later, Proper x := by
    simp only [hLater, List.forall_mem_map, List.mem_filter, Bool.and_eq_true, decide_eq_true_eq]
    exact fun c hc => (proper_of_lt hc.2.2).2
  unfold windowEnd nextStart?
  rw [← hMem, ← hLater]
  cases later with
  | nil => simp
  | cons x rest =>
    obtain ⟨hx, hRest⟩ := List.forall_mem_cons.mp hProper
    obtain ⟨hNext, hEarliest⟩ := lt_foldl_least (t := time) hx hRest
    rw [(lt_least_iff (proper_ownEnd b) hNext).2, hEarliest, List.forall_mem_cons]

/-- The buffs that have started by a time on a layer that reaches another one. -/
def started (buffs : List (BuffItem Float)) (layer : Nat) (time : Float) : List (BuffItem Float) :=
  buffs.filter fun b => decide (layer ≤ b.layer) && decide (b.start ≤ time)

theorem mem_started : b ∈ started buffs layer time ↔ b ∈ buffs ∧ layer ≤ b.layer ∧ b.start ≤ time := by
  simp [started]

/-- No buff of the layer starts between the start of one that started last and the time. -/
theorem forall_lt_iff_latest (hStart : b.start ≤ time) :
    (∀ c ∈ buffs, c.layer = b.layer → b.start < c.start → time < c.start) ↔
      ∀ c ∈ buffs, c.layer = b.layer → c.start ≤ time → c.start ≤ b.start := by
  obtain ⟨hProper, hTime⟩ := proper_of_le hStart
  refine forall₃_congr fun c _ _ => ⟨fun h hLe => ?_, fun h hLt => ?_⟩
  · obtain ⟨hc, -⟩ := proper_of_le hLe
    refine (not_lt_iff_of_proper hProper hc).mp fun hLt => ?_
    exact (not_lt_iff_of_proper hTime hc).mpr hLe (h hLt)
  · obtain ⟨-, hc⟩ := proper_of_lt hLt
    refine by_contra fun hNot => ?_
    exact (not_lt_iff_of_proper hProper hc).mpr (h ((not_lt_iff_of_proper hTime hc).mp hNot)) hLt

theorem reaches_iff : reaches buffs layer time b = true ↔
    layer ≤ b.layer ∧ b.start ≤ time ∧
      (∀ c ∈ buffs, c.layer = b.layer → c.start ≤ time → c.start ≤ b.start) ∧ time < ownEnd b := by
  simp only [reaches, Bool.and_eq_true, Bool.not_eq_true', decide_eq_false_iff_not, not_lt,
    decide_eq_true_eq, and_assoc, lt_windowEnd_iff]
  refine and_congr_right fun _ => and_congr_right fun hStart => ?_
  rw [and_comm, forall_lt_iff_latest hStart]

/-- Whether a buff is active depends on those alone that have started on layers that reach. -/
theorem reaches_started : reaches (started buffs layer time) layer time b = reaches buffs layer time b := by
  rw [Bool.eq_iff_iff, reaches_iff, reaches_iff]
  refine and_congr_right fun hLayer => and_congr_right fun _ => and_congr_left fun _ => ?_
  refine forall_congr' fun c => ⟨fun h hMem hSame hStart => ?_, fun h hMem => h (mem_started.mp hMem).1⟩
  exact h (mem_started.mpr ⟨hMem, hSame ▸ hLayer, hStart⟩) hSame hStart

theorem mem_activeBuffs {t : Timeline Float} :
    b ∈ t.activeBuffs layer time ↔ b ∈ t.buffs ∧ reaches t.buffs layer time b = true :=
  List.mem_filter

theorem activeBuffs_eq_started (t : Timeline Float) (layer : Nat) (time : Float) :
    t.activeBuffs layer time =
      (started t.buffs layer time).filter (reaches (started t.buffs layer time) layer time) := by
  rw [activeBuffs, started, List.filter_filter]
  refine List.filter_congr fun b _ => ?_
  rw [← started, reaches_started, Bool.eq_iff_iff, Bool.and_eq_true, Bool.and_eq_true,
    decide_eq_true_eq, decide_eq_true_eq]
  refine ⟨fun h => ?_, And.left⟩
  obtain ⟨hLayer, hStart, -⟩ := reaches_iff.mp h
  exact ⟨h, hLayer, hStart⟩

/-- A buff is active on a layer at a time if it lies on that layer or above, started last on its own layer and
has not run out; a finite start and a finite duration lead to the number at which it does. So the active buffs of
a layer share one start; and actions, buffs on lower layers and buffs that start later do not matter to the
list. -/
theorem activeBuffs_spec (t : Timeline Float) (layer : Nat) (time : Float) :
    (∀ b, b ∈ t.activeBuffs layer time ↔
      b ∈ t.buffs ∧ layer ≤ b.layer ∧ b.start ≤ time ∧
        (∀ c ∈ t.buffs, c.layer = b.layer → c.start ≤ time → c.start ≤ b.start) ∧
        (time < b.start + b.duration ∨
          (b.start + b.duration == b.start + b.duration) = false ∧ time < Number.infinity)) ∧
      (∀ b : BuffItem Float, b.start.isFinite = true → b.duration.isFinite = true →
        (b.start + b.duration == b.start + b.duration) = true) ∧
      (∀ b ∈ t.activeBuffs layer time, ∀ c ∈ t.activeBuffs layer time, b.layer = c.layer →
        (b.start == c.start) = true) ∧
      ∀ t' : Timeline Float, started t'.buffs layer time = started t.buffs layer time →
        t'.activeBuffs layer time = t.activeBuffs layer time := by
  have hMem (b : BuffItem Float) : b ∈ t.activeBuffs layer time ↔ _ :=
    mem_activeBuffs.trans (and_congr_right' reaches_iff)
  simp only [lt_ownEnd_iff] at hMem
  refine ⟨hMem, fun b hStart hDuration => ?_, ?_, ?_⟩
  · exact beq_self_iff.mpr (proper_add (proper_of_isFinite hStart) hDuration)
  · intro b hb c hc hLayer
    obtain ⟨hb, -, hStart, hLatest, -⟩ := (hMem b).mp hb
    obtain ⟨hc, -, hStart', hLatest', -⟩ := (hMem c).mp hc
    have hProper := (proper_of_le hStart).1
    have hProper' := (proper_of_le hStart').1
    refine (beq_iff_place hProper hProper').mpr (le_antisymm ?_ ?_)
    · exact (le_iff_place hProper hProper').mp (hLatest' b hb hLayer hStart)
    · exact (le_iff_place hProper' hProper).mp (hLatest c hc hLayer.symm hStart')
  · intro t' hSame
    rw [activeBuffs_eq_started, activeBuffs_eq_started, hSame]

/-- Two buffs that start together cut a third one short, for whatever time that one has left. What lies on a lower
layer or starts later may be otherwise. -/
theorem activeBuffs_spec_cut :
    let cut : BuffItem Float := ⟨"甲", none, 0.0, 10.0, 1⟩
    let brief : BuffItem Float := ⟨"乙", none, 4.0, 1.0, 1⟩
    let long : BuffItem Float := ⟨"丙", none, 4.0, 8.0, 1⟩
    let t : Timeline Float := ⟨[.buff cut, .action ⟨"刀", 1.0, 2.0, 0⟩, .buff brief, .buff long]⟩
    let t' : Timeline Float := ⟨[.buff ⟨"丁", none, 4.0, 9.0, 0⟩, .buff cut, .buff brief,
      .buff ⟨"戊", none, 5.0, 9.0, 1⟩, .buff long]⟩
    brief.start.isFinite = true ∧ brief.duration.isFinite = true ∧
      brief ∈ t.activeBuffs 1 4.5 ∧ long ∈ t.activeBuffs 1 4.5 ∧ brief.layer = long.layer ∧
      started t'.buffs 1 4.5 = started t.buffs 1 4.5 ∧
      (brief.start + brief.duration == brief.start + brief.duration) = true ∧
      (brief.start == long.start) = true ∧ cut ∉ t.activeBuffs 1 4.5 ∧
      t'.activeBuffs 1 4.5 = t.activeBuffs 1 4.5 := by
  intro cut brief long t t'
  have hStart : brief.start.isFinite = true := by decide +kernel
  have hDuration : brief.duration.isFinite = true := by decide +kernel
  have hBrief : brief ∈ t.activeBuffs 1 4.5 :=
    mem_activeBuffs.mpr ⟨by simp [t, buffs], by decide +kernel⟩
  have hLong : long ∈ t.activeBuffs 1 4.5 :=
    mem_activeBuffs.mpr ⟨by simp [t, buffs], by decide +kernel⟩
  have hStarted : started t'.buffs 1 4.5 = started t.buffs 1 4.5 := rfl
  obtain ⟨-, hNumber, hShared, hSame⟩ := activeBuffs_spec t 1 4.5
  have hCut : cut ∉ t.activeBuffs 1 4.5 := fun hCut =>
    absurd (hShared cut hCut brief hBrief rfl) (by decide +kernel)
  exact ⟨hStart, hDuration, hBrief, hLong, rfl, hStarted, hNumber brief hStart hDuration,
    hShared brief hBrief long hLong rfl, hCut, hSame t' hStarted⟩

/-- The sum of start and duration does not tell alone whether a buff has run out. One whose sum is no number, so
that no time is before it, is active. One whose sum is rounded down to its start is never active, though its start
is before what the two are worth together. -/
theorem activeBuffs_not_by_sum :
    let endless : BuffItem Float := ⟨"甲", none, 0.0, 0.0 / 0.0, 0⟩
    let rounded : BuffItem Float := ⟨"乙", none, 9007199254740992.0, 1.0, 0⟩
    let t : Timeline Float := ⟨[.buff endless]⟩
    let t' : Timeline Float := ⟨[.buff rounded]⟩
    (¬ ∀ b, b ∈ t.activeBuffs 0 5.0 ↔
      b ∈ t.buffs ∧ 0 ≤ b.layer ∧ b.start ≤ 5.0 ∧
        (∀ c ∈ t.buffs, c.layer = b.layer → c.start ≤ 5.0 → c.start ≤ b.start) ∧
        5.0 < b.start + b.duration) ∧
      ¬ ∀ b, b ∈ t'.activeBuffs 0 rounded.start ↔
        b ∈ t'.buffs ∧ 0 ≤ b.layer ∧ b.start ≤ rounded.start ∧
          (∀ c ∈ t'.buffs, c.layer = b.layer → c.start ≤ rounded.start → c.start ≤ b.start) ∧
          place rounded.start < place b.start + place b.duration := by
  intro endless rounded t t'
  constructor
  · intro hClosed
    have hActive : endless ∈ t.activeBuffs 0 5.0 :=
      mem_activeBuffs.mpr ⟨List.mem_singleton_self _, by decide +kernel⟩
    obtain ⟨-, -, -, -, hBefore⟩ := (hClosed endless).mp hActive
    exact absurd hBefore (by decide +kernel)
  · intro hClosed
    have hStart : rounded.start ≤ rounded.start := by decide +kernel
    have hBefore : place rounded.start < place rounded.start + place rounded.duration :=
      lt_add_of_pos_right _ (place_one ▸ one_pos)
    have hActive : rounded ∈ t'.activeBuffs 0 rounded.start := (hClosed rounded).mpr
      ⟨List.mem_singleton_self _, le_rfl, hStart, fun _ _ _ hLe => hLe, hBefore⟩
    obtain ⟨-, hReaches⟩ := mem_activeBuffs.mp hActive
    -- 2^53 and one more is a tie, which goes to the even of its neighbours: the start itself
    exact absurd hReaches (by decide +kernel)

end Timeline

end Loadout
