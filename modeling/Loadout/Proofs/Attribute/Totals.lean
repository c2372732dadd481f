import Mathlib.Algebra.BigOperators.Group.List.Basic
import Loadout.Proofs.Number.Exact
import Loadout.Aggregate.Sources

/-!
# Totals in closed form

A total is folded from contributions one at a time. One walk over the sources can keep all totals at once, since a
grant to one attribute leaves the totals of the others alone; so the contributions to each may be looked at by
themselves. In exact arithmetic their order cannot be told from the total: under each rule the numbers are a
commutative monoid, and the total is the product in it.

* `Sources.foldl_tally`, `Sources.tallies_eq`: running totals of many keys are, to the last bit, the totals of each
  key's own contributions. The induction is on the grants, from any running totals;
* `Sources.pass_eq_tallies`, `Sources.weaponStats_eq_tallies`: attributes and weapon stats from one walk over the
  sources;
* `combine_zero`, `zero_combine`, `combine_assoc`: the laws of the monoid;
* `closedForm`, `foldl_combine`: the sum or product that a fold comes to. The induction is on the contributions,
  from any running total;
* `total_perm`, `total_append`: contributions in another order and in two groups;
* `diminishing_mem`, `diminishing_total_mem`: shares that diminish what is left are together a share again;
* `total_spec`: what this comes to for a list of contributions.
-/

namespace Loadout

/-! ## Running totals -/

namespace Sources

variable {K κ : Type} [Number K] [DecidableEq κ]

/-- Takes one more contribution into the running total of its key. -/
def tally (rule : κ → Stacking) (running : κ → K) (grant : κ × K) : κ → K :=
  Function.update running grant.1 ((rule grant.1).combine (running grant.1) grant.2)

/-- Contributions to other keys leave a running total alone. -/
theorem foldl_tally (rule : κ → Stacking) (running : κ → K) (grants : List (κ × K)) (k : κ) :
    grants.foldl (tally rule) running k =
      (contributions grants k).foldl (rule k).combine (running k) := by
  induction grants generalizing running with
  | nil => rfl
  | cons grant rest ih =>
    rw [List.foldl_cons, ih]
    by_cases hKey : grant.1 = k
    · subst hKey
      simp [tally, contributions]
    · simp [tally, contributions, hKey, Function.update_of_ne (Ne.symm hKey)]

/-- The running totals after all sources, where each grant of a source goes into the total of its key. -/
def tallies (rule : κ → Stacking) (grants : Source K → List (κ × K)) (sources : List (Source K)) : κ → K :=
  sources.foldl (fun running s => (grants s).foldl (tally rule) running) fun _ => 0.0

theorem tallies_eq (rule : κ → Stacking) (grants : Source K → List (κ × K)) (sources : List (Source K)) :
    tallies rule grants sources = fun k => (rule k).total (contributions (sources.flatMap grants) k) := by
  funext k
  rw [tallies, ← List.foldl_flatMap, foldl_tally]
  rfl

/-- A pass walks over its sources once, and then finalizes what it has taken in. -/
theorem pass_eq_tallies (s : Sources K) (flags : List Bool) :
    s.pass flags = s.dynamicBuffs.foldl runBuff
      { s.finalize (tallies Attribute.stacking characterGrants (s.active flags)) with
        extra := extras (s.active flags) } := by
  rw [tallies_eq]
  rfl

theorem weaponStats_eq_tallies (s : Sources K) (flags : List Bool) (w : Weapon K) :
    s.weaponStats flags w =
      s.finalizeWeapon w.base (tallies WeaponStat.stacking (weaponGrants w.kind) (s.active flags)) := by
  rw [tallies_eq]
  rfl

end Sources

namespace Stacking

variable {K : Type} [ExactNumber K]

/-! ## One contribution more -/

theorem combine_zero (rule : Stacking) (x : K) : rule.combine x 0 = x := by
  cases rule <;> simp [combine]

theorem zero_combine (rule : Stacking) (x : K) : rule.combine 0 x = x := by
  cases rule <;> simp [combine]

theorem combine_assoc (rule : Stacking) (x y z : K) :
    rule.combine (rule.combine x y) z = rule.combine x (rule.combine y z) := by
  cases rule <;> simp only [combine] <;> ring

/-- A share of what a share has left over leaves a share. -/
theorem diminishing_mem {x y : K} (hx : 0 ≤ x ∧ x ≤ 1) (hy : 0 ≤ y ∧ y ≤ 1) :
    0 ≤ diminishing.combine x y ∧ diminishing.combine x y ≤ 1 := by
  have hLeft : 1 - diminishing.combine x y = (1 - x) * (1 - y) := by
    simp only [combine]
    ring
  have hNonneg : 0 ≤ (1 - x) * (1 - y) := mul_nonneg (by linarith) (by linarith)
  have hLe : (1 - x) * (1 - y) ≤ 1 := mul_le_one₀ (by linarith) (by linarith) (by linarith)
  exact ⟨by linarith, by linarith⟩

/-! ## All contributions at once -/

/-- The sum, the product of all `1 + x`, less one, or one less the product of all `1 - x`. -/
def closedForm (rule : Stacking) (xs : List K) : K :=
  match rule with
  | additive => xs.sum
  | compounding => (xs.map (1 + ·)).prod - 1
  | diminishing => 1 - (xs.map (1 - ·)).prod

theorem closedForm_nil (rule : Stacking) : rule.closedForm ([] : List K) = 0 := by
  cases rule <;> simp [closedForm]

theorem closedForm_cons (rule : Stacking) (x : K) (xs : List K) :
    rule.closedForm (x :: xs) = rule.combine x (rule.closedForm xs) := by
  cases rule <;> simp only [closedForm, combine, List.map_cons, List.sum_cons, List.prod_cons] <;> ring

theorem closedForm_perm (rule : Stacking) {xs ys : List K} (h : xs.Perm ys) :
    rule.closedForm xs = rule.closedForm ys := by
  cases rule with
  | additive => exact h.sum_eq
  | compounding => exact congrArg (· - 1) (h.map _).prod_eq
  | diminishing => exact congrArg (1 - ·) (h.map _).prod_eq

/-- A fold combines its start with all contributions at once. -/
theorem foldl_combine (rule : Stacking) (t : K) (xs : List K) :
    xs.foldl rule.combine t = rule.combine t (rule.closedForm xs) := by
  induction xs generalizing t with
  | nil => rw [closedForm_nil, combine_zero, List.foldl_nil]
  | cons x xs ih => rw [List.foldl_cons, ih, closedForm_cons, combine_assoc]

theorem total_eq_closedForm (rule : Stacking) (xs : List K) : rule.total xs = rule.closedForm xs := by
  rw [total, ExactNumber.zero_eq, foldl_combine, zero_combine]

/-- Contributions may come in any order. -/
theorem total_perm (rule : Stacking) {xs ys : List K} (h : xs.Perm ys) : rule.total xs = rule.total ys := by
  rw [total_eq_closedForm, total_eq_closedForm, closedForm_perm rule h]

/-- Contributions may be totalled in two groups. -/
theorem total_append (rule : Stacking) (xs ys : List K) :
    rule.total (xs ++ ys) = rule.combine (rule.total xs) (rule.total ys) := by
  rw [total, List.foldl_append, foldl_combine, ← total_eq_closedForm]
  rfl

/-- Shares that diminish one another are together a share. -/
theorem diminishing_total_mem {xs : List K} (h : ∀ x ∈ xs, 0 ≤ x ∧ x ≤ 1) :
    0 ≤ diminishing.total xs ∧ diminishing.total xs ≤ 1 := by
  rw [total, ExactNumber.zero_eq]
  exact List.foldlRecOn xs _ (motive := fun t => 0 ≤ t ∧ t ≤ 1) ⟨le_rfl, zero_le_one⟩
    fun t ht x hx => diminishing_mem ht (h x hx)

/-- The total of any contributions under any rule is the sum or product that the rule is named for. So it does
not depend on their order, the totals of two groups combine to that of both, and shares between zero and one
diminish one another to a share between zero and one. -/
theorem total_spec (rule : Stacking) (xs : List K) :
    rule.total xs = rule.closedForm xs ∧
    (∀ ys, xs.Perm ys → rule.total ys = rule.total xs) ∧
    (∀ ys, rule.total (xs ++ ys) = rule.combine (rule.total xs) (rule.total ys)) ∧
    ((∀ x ∈ xs, 0 ≤ x ∧ x ≤ 1) → 0 ≤ diminishing.total xs ∧ diminishing.total xs ≤ 1) :=
  ⟨total_eq_closedForm rule xs, fun _ h => (total_perm rule h).symm, total_append rule xs,
    diminishing_total_mem⟩

section

open scoped Exact

/-- Three reductions of damage, in two orders and with a fourth one that takes all that is left. -/
theorem total_spec_reductions :
    [1 / 2, 1 / 4, (1 / 3 : ℚ)].Perm [1 / 3, 1 / 2, 1 / 4] ∧
      (∀ x ∈ [1 / 2, 1 / 4, (1 / 3 : ℚ)], 0 ≤ x ∧ x ≤ 1) ∧
      diminishing.total [1 / 2, 1 / 4, (1 / 3 : ℚ)] = 3 / 4 ∧
      diminishing.total [1 / 3, 1 / 2, (1 / 4 : ℚ)] = 3 / 4 ∧
      diminishing.total [1 / 2, 1 / 4, 1 / 3, (1 : ℚ)] = 1 ∧
      0 ≤ diminishing.total [1 / 2, 1 / 4, (1 / 3 : ℚ)] ∧
      diminishing.total [1 / 2, 1 / 4, (1 / 3 : ℚ)] ≤ 1 := by
  have hTurned : [1 / 2, 1 / 4, (1 / 3 : ℚ)].Perm [1 / 3, 1 / 2, 1 / 4] := by decide +kernel
  have hShares : ∀ x ∈ [1 / 2, 1 / 4, (1 / 3 : ℚ)], 0 ≤ x ∧ x ≤ 1 := by decide +kernel
  obtain ⟨hForm, hPerm, hAppend, hMem⟩ := total_spec diminishing [1 / 2, 1 / 4, (1 / 3 : ℚ)]
  have hTotal : diminishing.total [1 / 2, 1 / 4, (1 / 3 : ℚ)] = 3 / 4 :=
    hForm.trans (by norm_num [closedForm])
  have hAll : diminishing.combine (3 / 4) (diminishing.total [(1 : ℚ)]) = 1 := by decide +kernel
  refine ⟨hTurned, hShares, hTotal, (hPerm _ hTurned).trans hTotal, ?_, hMem hShares⟩
  rw [← hTotal] at hAll
  exact (hAppend [1]).trans hAll

end

end Stacking

end Loadout
