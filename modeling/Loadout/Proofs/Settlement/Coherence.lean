import Loadout.Aggregate.Settlement

/-!
# Settlements are coherent

Settling goes through three kinds of steps: one check in the sweep, a revision of all flags, and the
loop that revises until the flags agree. Each of them replaces the attributes by those of one pass
with the new flags whenever it changes a flag (`Fresh`), so the attributes that come out owe nothing
to the passes before the last one.

* `Fresh.sweep`, `Fresh.settleFrom`: the flags and the attributes belong together at every point of
  a run;
* `settleFrom_passes`: how many passes the loop counts, and that it stops early only at flags that
  agree with their conditions;
* `settle_coherent`: what a settlement says about itself is true.
-/

namespace Loadout.Sources

variable {K : Type} [Number K]

/-! ## Flags and their attributes -/

/-- There is one flag per conditional, and the attributes are those of one pass with the flags. -/
structure Fresh (s : Sources K) (state : FlagState K) : Prop where
  length_flags : state.flags.length = s.conditionals.length
  attributes_eq : state.attributes = s.pass state.flags

theorem length_wanted (s : Sources K) (attributes : AttributeSet K) :
    (s.wanted attributes).length = s.conditionals.length := by
  simp [wanted]

theorem getElem?_wanted (s : Sources K) (attributes : AttributeSet K) (i : Nat) :
    (s.wanted attributes)[i]? = s.conditionals[i]?.map fun c => holds c attributes := by
  simp [wanted]

theorem fresh_stateOf (s : Sources K) {flags : List Bool}
    (h : flags.length = s.conditionals.length) : s.Fresh (s.stateOf flags) :=
  ⟨h, rfl⟩

/-- Flags agree when each of them says whether the conditions of its mod hold. -/
theorem isStable_iff {s : Sources K} (state : FlagState K)
    (h : state.flags.length = s.conditionals.length) :
    s.isStable state = true ↔ ∀ (i : Nat) c, s.conditionals[i]? = some c →
      state.flags[i]? = some (holds c state.attributes) := by
  rw [isStable, beq_iff_eq]
  constructor
  · intro hEq i c hc
    rw [← hEq, getElem?_wanted, hc, Option.map_some]
  · intro hAll
    apply List.ext_getElem?
    intro i
    rw [getElem?_wanted]
    cases hc : s.conditionals[i]? with
    | some c => rw [hAll i c hc, Option.map_some]
    | none =>
      have hLength : s.conditionals.length ≤ i := List.getElem?_eq_none_iff.mp hc
      rw [Option.map_none, List.getElem?_eq_none (by omega)]

/-! ## Steps of a run -/

namespace Fresh

variable {s : Sources K} {state : FlagState K}

theorem sweepStep (h : s.Fresh state) (i : Nat) : s.Fresh (s.sweepStep state i) := by
  unfold Sources.sweepStep
  split
  · exact h
  · dsimp only
    split
    · exact h
    · exact s.fresh_stateOf (by rw [List.length_set, h.length_flags])

theorem sweep (h : s.Fresh state) (order : List Nat) : s.Fresh (s.sweep order state) := by
  unfold Sources.sweep
  induction order generalizing state with
  | nil => exact h
  | cons i rest ih => exact ih (h.sweepStep i)

/-- A revision takes nothing over but the attributes it reads, so it needs no assumption. -/
theorem revise (s : Sources K) (state : FlagState K) : s.Fresh (s.revise state) :=
  s.fresh_stateOf (s.length_wanted state.attributes)

theorem settleFrom (h : s.Fresh state) (left passes : Nat) :
    s.Fresh (s.settleFrom left passes state).2 := by
  induction left generalizing passes state with
  | zero => exact h
  | succ left ih =>
    unfold Sources.settleFrom
    split
    · exact h
    · exact ih (revise s state) (passes + 1)

end Fresh

/-! ## The number of passes -/

/-- The loop counts on from `passes` and goes to the end of what is left unless it finds flags that
agree. -/
theorem settleFrom_passes (s : Sources K) (left passes : Nat) (state : FlagState K) :
    passes ≤ (s.settleFrom left passes state).1 ∧
      (s.settleFrom left passes state).1 ≤ passes + left ∧
      (s.isStable (s.settleFrom left passes state).2 = false →
        (s.settleFrom left passes state).1 = passes + left) := by
  induction left generalizing passes state with
  | zero => exact ⟨Nat.le_refl _, Nat.le_refl _, fun _ => rfl⟩
  | succ left ih =>
    unfold settleFrom
    split
    · rename_i hStable
      refine ⟨Nat.le_refl _, Nat.le_add_right _ _, ?_⟩
      intro hUnstable
      rw [hStable] at hUnstable
      cases hUnstable
    · obtain ⟨hLow, hHigh, hCap⟩ := ih (passes + 1) (s.revise state)
      refine ⟨by omega, by omega, ?_⟩
      intro hUnstable
      have hEnd := hCap hUnstable
      omega

/-! ## Settlements -/

/-- The greatest number of passes; there is always one. -/
def passLimit (s : Sources K) : Nat := max 1 s.settings.maxConditionPasses

/-- Where a run begins: nothing is active. -/
def initial (s : Sources K) : FlagState K := s.stateOf (s.conditionals.map fun _ => false)

/-- Where the first pass ends, which checks the conditionals one after another. -/
def firstPass (s : Sources K) : FlagState K := s.sweep s.conditionGraph.checkOrder.1 s.initial

/-- The run behind a settlement that has something to settle. -/
def run (s : Sources K) : Nat × FlagState K := s.settleFrom (s.passLimit - 1) 1 s.firstPass

theorem fresh_initial (s : Sources K) : s.Fresh s.initial :=
  s.fresh_stateOf (by rw [List.length_map])

theorem fresh_run (s : Sources K) : s.Fresh s.run.2 :=
  (s.fresh_initial.sweep s.conditionGraph.checkOrder.1).settleFrom _ _

theorem run_passes (s : Sources K) :
    1 ≤ s.run.1 ∧ s.run.1 ≤ s.passLimit ∧ (s.isStable s.run.2 = false → s.run.1 = s.passLimit) := by
  have hLimit : 1 + (s.passLimit - 1) = s.passLimit := by
    have : 1 ≤ s.passLimit := Nat.le_max_left _ _
    omega
  have hRun := s.settleFrom_passes (s.passLimit - 1) 1 s.firstPass
  rw [hLimit] at hRun
  exact hRun

theorem settle_of_nil {s : Sources K} (h : s.conditionals = []) :
    s.settle.passes = 0 ∧ s.settle.flags = [] ∧ s.settle.attributes = s.pass [] ∧
      s.settle.converged = true := by
  simp [settle, h, stateOf, isStable, wanted]

theorem settle_of_ne_nil {s : Sources K} (h : s.conditionals ≠ []) :
    s.settle.passes = s.run.1 ∧ s.settle.flags = s.run.2.flags ∧
      s.settle.attributes = s.run.2.attributes ∧ s.settle.converged = s.isStable s.run.2 := by
  have hEmpty : s.conditionals.isEmpty = false := by simpa using h
  simp [settle, hEmpty, run, firstPass, initial, passLimit, Nat.max_comm]

theorem attributes_settle (s : Sources K) : s.settle.attributes = s.pass s.settle.flags := by
  by_cases hNil : s.conditionals = []
  · obtain ⟨-, hFlags, hAttributes, -⟩ := settle_of_nil hNil
    rw [hAttributes, hFlags]
  · obtain ⟨-, hFlags, hAttributes, -⟩ := settle_of_ne_nil hNil
    rw [hAttributes, hFlags, s.fresh_run.attributes_eq]

omit [Number K] in
theorem activeLabels_eq (s : Sources K) (flags : List Bool) :
    s.activeLabels flags =
      (s.conditionals.zip flags).filterMap fun c => if c.2 then some c.1.label else none := by
  unfold activeLabels
  induction s.conditionals.zip flags with
  | nil => rfl
  | cons c rest ih =>
    obtain ⟨c, flag⟩ := c
    cases flag <;> simp [ih]

/-- What a settlement says is true: its attributes are those of one pass with its flags, its labels
are those of the flagged conditionals in their order, it says that it converged when every flag
agrees with its conditions under the attributes, and it was given up only at the last pass. -/
structure Coherent (s : Sources K) (r : Settlement K) : Prop where
  length_flags : r.flags.length = s.conditionals.length
  attributes_eq : r.attributes = s.pass r.flags
  active_eq : r.active =
    (s.conditionals.zip r.flags).filterMap fun c => if c.2 then some c.1.label else none
  converged_iff : r.converged = true ↔
    ∀ (i : Nat) c, s.conditionals[i]? = some c → r.flags[i]? = some (holds c r.attributes)
  passes_eq_zero_iff : r.passes = 0 ↔ s.conditionals = []
  passes_mem : s.conditionals ≠ [] → 1 ≤ r.passes ∧ r.passes ≤ s.passLimit
  passes_of_not_converged : r.converged = false → r.passes = s.passLimit

/-- Whatever is settled, the result is coherent. -/
theorem settle_coherent (s : Sources K) : s.Coherent s.settle := by
  by_cases hNil : s.conditionals = []
  · obtain ⟨hPasses, hFlags, hAttributes, hConverged⟩ := settle_of_nil hNil
    exact {
      length_flags := by simp [hFlags, hNil]
      attributes_eq := by rw [hAttributes, hFlags]
      active_eq := s.activeLabels_eq _
      converged_iff := by simp [hConverged, hNil]
      passes_eq_zero_iff := by simp [hPasses, hNil]
      passes_mem := fun h => absurd hNil h
      passes_of_not_converged := fun h => by simp [hConverged] at h }
  · obtain ⟨hPasses, hFlags, hAttributes, hConverged⟩ := settle_of_ne_nil hNil
    obtain ⟨hLow, hHigh, hCap⟩ := s.run_passes
    have hFresh := s.fresh_run
    exact {
      length_flags := by rw [hFlags, hFresh.length_flags]
      attributes_eq := by rw [hAttributes, hFlags, hFresh.attributes_eq]
      active_eq := s.activeLabels_eq _
      converged_iff := by
        rw [hConverged, hFlags, hAttributes]
        exact isStable_iff _ hFresh.length_flags
      passes_eq_zero_iff := by
        rw [hPasses]
        constructor
        · intro hZero
          omega
        · intro h
          exact absurd h hNil
      passes_mem := by
        intro _
        rw [hPasses]
        exact ⟨hLow, hHigh⟩
      passes_of_not_converged := by
        intro h
        rw [hPasses]
        rw [hConverged] at h
        exact hCap h }

end Loadout.Sources
