import Loadout.Proofs.Attribute.Totals
import Loadout.Proofs.Settlement.Coherence

/-!
# Settling does not see the order of sources

Contributions are added up, multiplied together or collected by name. In exact arithmetic none of these
depends on the order of the contributions, so a pass gives the same for sources in any order. The
conditionals stand in an order of their own, and for each of them mods are counted, which has no order
either. So whole settlements agree, wherever their passes lead.

* `Number.sum_perm`, `extras_perm`: the folds over contributions. Totals under a rule are in `Stacking.total_perm`;
* `Alike.pass`, `Alike.weaponStats`: what a choice of active conditionals gives;
* `Alike.settle`: the same flags in every pass, whether they converge or not.
-/

namespace Loadout

/-! ## Folds over contributions -/

section

variable {K : Type} [ExactNumber K]

theorem Number.sum_perm {xs ys : List K} (h : xs.Perm ys) : Number.sum xs = Number.sum ys :=
  h.foldl_eq' (fun x _ y _ t => add_right_comm t x y) _

theorem Bonuses.addTo_right_comm {κ : Type} [Key κ] [DecidableEq κ] (t : Table κ K) (k k' : κ)
    (x y : K) : addTo (addTo t k x) k' y = addTo (addTo t k' y) k x := by
  apply Table.ext_find?
  intro l
  by_cases hk : k = k'
  · -- Both amounts go to one name, where they are added up.
    subst hk
    simp only [find?_addTo, if_true, Option.getD_some, add_right_comm _ x y]
    split <;> rfl
  · simp only [find?_addTo, if_neg hk, if_neg (Ne.symm hk)]
    by_cases hl : k = l
    · subst hl
      simp only [if_neg (Ne.symm hk), if_true]
    · simp only [if_neg hl]

/-- Extras may be collected in any order. -/
theorem Sources.extras_perm {xs ys : List (Source K)} (h : xs.Perm ys) : extras xs = extras ys := by
  unfold extras
  rw [← List.foldl_flatMap, ← List.foldl_flatMap]
  exact (h.flatMap_right _).foldl_eq' (fun e _ e' _ t => Bonuses.addTo_right_comm t e.1 e'.1 e.2 e'.2) _

end

/-! ## Sources in another order -/

/-- A conditional without the mods that are counted for it. -/
def Conditional.bare {K : Type} (c : Conditional K) : Conditional K := { c with siblings := [] }

namespace Sources

/-- Sources in another order. The conditionals have the order that they had, but the mods that are
counted for them may stand in another one, as far as conditions can tell. -/
structure Alike {K : Type} [Number K] (s s' : Sources K) : Prop where
  character : s'.character = s.character
  sources : s.sources.Perm s'.sources
  conditionals : s'.conditionals.map Conditional.bare = s.conditionals.map Conditional.bare
  wanted : ∀ attributes, s'.wanted attributes = s.wanted attributes
  dynamicBuffs : s'.dynamicBuffs = s.dynamicBuffs
  resonanceGain : s'.resonanceGain = s.resonanceGain
  settings : s'.settings = s.settings

section

variable {K : Type} [Number K]

omit [Number K] in
/-- What is read off the flagged conditionals without their counted mods. -/
theorem map_flagged_bare {α : Type} (f : Conditional K → α) (hf : ∀ c, f c.bare = f c)
    (cs : List (Conditional K)) (flags : List Bool) :
    (((cs.map Conditional.bare).zip flags).filter (·.2)).map (fun c => f c.1) =
      ((cs.zip flags).filter (·.2)).map fun c => f c.1 := by
  rw [List.zip_map_left, List.filter_map, List.map_map]
  apply List.map_congr_left
  intro c _
  exact hf c.1

theorem map_flagged_congr {s s' : Sources K} (h : s.Alike s') {α : Type} (f : Conditional K → α)
    (hf : ∀ c, f c.bare = f c) (flags : List Bool) :
    ((s'.conditionals.zip flags).filter (·.2)).map (fun c => f c.1) =
      ((s.conditionals.zip flags).filter (·.2)).map fun c => f c.1 := by
  rw [← map_flagged_bare f hf, h.conditionals, map_flagged_bare f hf]

omit [Number K] in
theorem conditionGraph_bare (s : Sources K) :
    conditionGraph { s with conditionals := s.conditionals.map Conditional.bare } = s.conditionGraph := by
  unfold conditionGraph
  simp only [List.zipIdx_map, List.foldl_map]
  rfl

omit [Number K] in
theorem conditionGraph_congr {s s' : Sources K}
    (h : s'.conditionals.map Conditional.bare = s.conditionals.map Conditional.bare) :
    s'.conditionGraph = s.conditionGraph := by
  rw [← s'.conditionGraph_bare, ← s.conditionGraph_bare, h]
  rfl

/-- A step of the sweep asks only whether the flag is the one that is wanted. -/
theorem sweepStep_eq (s : Sources K) (state : FlagState K) (i : Nat) :
    s.sweepStep state i =
      match (s.wanted state.attributes)[i]? with
      | none => state
      | some flag => if state.flags[i]? = some flag then state else s.stateOf (state.flags.set i flag) := by
  rw [getElem?_wanted, sweepStep]
  cases s.conditionals[i]? <;> rfl

end

/-! ## The same results -/

variable {K : Type} [ExactNumber K] {s s' : Sources K}

namespace Alike

theorem active (h : s.Alike s') (flags : List Bool) : (s.active flags).Perm (s'.active flags) := by
  unfold Sources.active
  rw [map_flagged_congr h (fun c => Source.mk c.scope c.bonuses) (fun _ => rfl)]
  exact h.sources.append_right _

theorem totals {grants grants' : List (Attribute × K)} (h : grants.Perm grants') :
    Sources.totals grants' = Sources.totals grants := by
  funext a
  exact a.stacking.total_perm (h.symm.filterMap _)

/-- A pass with the same flags gives the same attributes. -/
theorem pass (h : s.Alike s') (flags : List Bool) : s'.pass flags = s.pass flags := by
  have hActive := h.active flags
  have hTotals := totals (hActive.flatMap_right characterGrants)
  unfold Sources.pass
  dsimp only
  rw [hTotals, extras_perm hActive.symm, h.dynamicBuffs]
  unfold finalize
  rw [h.character, h.resonanceGain, h.settings]

/-- Every weapon has the same stats with the same flags. -/
theorem weaponStats (h : s.Alike s') (flags : List Bool) (w : Weapon K) :
    s'.weaponStats flags w = s.weaponStats flags w := by
  have hGrants := ((h.active flags).flatMap_right (weaponGrants w.kind)).symm
  have hTotals : (fun stat : WeaponStat => stat.stacking.total
      (contributions ((s'.active flags).flatMap (weaponGrants w.kind)) stat)) =
      fun stat => stat.stacking.total
        (contributions ((s.active flags).flatMap (weaponGrants w.kind)) stat) := by
    funext stat
    exact stat.stacking.total_perm (hGrants.filterMap _)
  unfold Sources.weaponStats
  dsimp only
  rw [hTotals]
  unfold finalizeWeapon
  rw [h.settings]

theorem stateOf (h : s.Alike s') : s'.stateOf = s.stateOf := by
  funext flags
  rw [Sources.stateOf, Sources.stateOf, h.pass]

theorem sweepStep (h : s.Alike s') : s'.sweepStep = s.sweepStep := by
  funext state i
  rw [sweepStep_eq, sweepStep_eq, h.wanted, h.stateOf]

theorem isStable (h : s.Alike s') : s'.isStable = s.isStable := by
  funext state
  rw [Sources.isStable, Sources.isStable, h.wanted]

theorem settleFrom (h : s.Alike s') (left passes : Nat) (state : FlagState K) :
    s'.settleFrom left passes state = s.settleFrom left passes state := by
  induction left generalizing passes state with
  | zero => rfl
  | succ left ih =>
    rw [Sources.settleFrom, Sources.settleFrom, h.isStable, Sources.revise, Sources.revise, h.stateOf,
      h.wanted, ih]

/-- The settlements are the same: the attributes, the flags, the labels of the active conditionals, the
number of passes, and whether they converged. -/
theorem settle (h : s.Alike s') : s'.settle = s.settle := by
  have hLength : s'.conditionals.length = s.conditionals.length := by
    rw [← List.length_map Conditional.bare, h.conditionals, List.length_map]
  have hNone : (s'.conditionals.map fun _ => false) = s.conditionals.map fun _ => false := by
    rw [List.map_const', List.map_const', hLength]
  have hEmpty : s'.conditionals.isEmpty = s.conditionals.isEmpty := by
    rw [Bool.eq_iff_iff, List.isEmpty_iff_length_eq_zero, List.isEmpty_iff_length_eq_zero, hLength]
  have hLabels : s'.activeLabels = s.activeLabels := by
    funext flags
    exact map_flagged_congr h Conditional.label (fun _ => rfl) flags
  have hSweep : s'.sweep = s.sweep := by
    funext order state
    rw [Sources.sweep, Sources.sweep, h.sweepStep]
  unfold Sources.settle
  simp only [hNone, hEmpty, hLabels, hSweep, h.stateOf, h.isStable, h.settings, h.settleFrom,
    conditionGraph_congr h.conditionals]

end Alike

end Sources

end Loadout
