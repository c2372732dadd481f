import Loadout.Proofs.Number.Extremes
import Loadout.Proofs.Search.Move

/-!
# What is taken of an offer

An offer compares its gains by how close they come to the greatest one. Which of them count as equal to it
does not depend on the order of the offer. One of those is picked, and it is taken if its gain is enough;
where it is not, no gain exceeds what was asked for by more than numbers may differ that count as equal.

* `isGreatest_of_greatestGain?`, `ties_perm`: the greatest gain, and what is close to it;
* `pick_of_ties_eq_singleton`: nothing is left to chance where there is only one;
* `Exact.le_of_best?_eq_none`: what an offer holds from which nothing is taken.
-/

namespace Loadout

open Number.Binary

namespace Offer

variable {f f' : Offer Float}

/-! ## The greatest gain -/

theorem isGreatest_of_greatestGain? {best : Float} (h : f.greatestGain? = some best) :
    IsGreatest (f.trials.map (·.gain)) best := by
  unfold greatestGain? at h
  cases hTrials : f.trials with
  | nil =>
    rw [hTrials] at h
    cases h
  | cons t rest =>
    rw [hTrials] at h
    cases h
    have hFold : rest.foldl (fun best t => Number.greatest best t.gain) t.gain =
        (rest.map (·.gain)).foldl Number.greatest t.gain := (List.foldl_map ..).symm
    rw [hFold, List.map_cons]
    exact isGreatest_foldl t.gain _

theorem exists_greatestGain? (h : f.trials ≠ []) : ∃ best, f.greatestGain? = some best := by
  unfold greatestGain?
  split
  · contradiction
  · exact ⟨_, rfl⟩

theorem ties_eq {best : Float} (h : f.greatestGain? = some best) :
    f.ties = f.trials.filter fun t => Number.close t.gain best := by rw [ties, h]

theorem ties_of_trials_eq_nil (h : f.trials = []) : f.ties = [] := by
  rw [ties, greatestGain?, h]

/-- The order of an offer does not decide which gains count as equal to the greatest one. -/
theorem ties_perm (h : f.trials.Perm f'.trials) : f.ties.Perm f'.ties := by
  by_cases hNil : f.trials = []
  · rw [ties_of_trials_eq_nil hNil, ties_of_trials_eq_nil (hNil ▸ h).nil_eq.symm]
  · obtain ⟨best, hBest⟩ := exists_greatestGain? hNil
    obtain ⟨best', hBest'⟩ := exists_greatestGain? (f := f') fun h' => hNil (h' ▸ h).eq_nil
    have hClose : (fun t : Trial Float => Number.close t.gain best) =
        fun t => Number.close t.gain best' := by
      funext t
      rcases (isGreatest_of_greatestGain? hBest).place_eq (isGreatest_of_greatestGain? hBest')
        (h.map _) with ⟨hProper, hProper', hPlace⟩ | ⟨hNone, hNone'⟩
      · exact close_congr hProper hProper' hPlace t.gain
      · rw [close_of_not_proper hNone, close_of_not_proper hNone']
    rw [ties_eq hBest, ties_eq hBest', hClose]
    exact h.filter _

section

variable {K σ : Type} [Number K] {g : Offer K} (ch : Chooser σ) (random : σ)

theorem pick_of_ties_eq_nil (h : g.ties = []) : (g.pick ch random).1 = .none := by
  unfold pick
  rw [dif_neg (by rw [h]; exact Nat.lt_irrefl 0)]

/-- The only one is chosen, whatever the way to choose. -/
theorem pick_of_ties_eq_singleton {t : Trial K} (h : g.ties = [t]) :
    (g.pick ch random).1 = some t := by
  have hSome : 0 < g.ties.length := by rw [h]; exact Nat.one_pos
  unfold pick
  rw [dif_pos hSome]
  dsimp only
  generalize (ch.choose g.ties.length hSome random).1 = i
  have hOnly : ∀ t' ∈ g.ties, t' = t := by
    rw [h]
    exact fun t' => List.mem_singleton.mp
  exact congrArg some (hOnly _ (List.getElem_mem _))

end

/-! ## Nothing is taken -/

/-- The gains of an offer are finite, and rounding decides no comparison among them: gains are close when
they differ by no more than the tolerance, and one is enough when it exceeds `least`. -/
structure Exact (f : Offer Float) (least : ℚ) : Prop where
  finite : ∀ t ∈ f.trials, t.gain.isFinite = true
  close_iff : ∀ t ∈ f.trials, ∀ t' ∈ f.trials,
    Number.close t.gain t'.gain = true ↔ |place t.gain - place t'.gain| ≤ tolerance
  le_iff : ∀ t ∈ f.trials, t.gain ≤ f.least ↔ place t.gain ≤ least

variable {σ : Type} {ch : Chooser σ} {random : σ}

/-- If nothing is taken, no gain exceeds what was asked for by more than the tolerance. -/
theorem Exact.le_of_best?_eq_none {least : ℚ} (hExact : f.Exact least)
    (h : (f.best? ch random).1 = Option.none) {t : Trial Float} (ht : t ∈ f.trials) :
    place t.gain ≤ least + tolerance := by
  obtain ⟨best, hBest⟩ := exists_greatestGain? (List.ne_nil_of_mem ht)
  obtain ⟨hMem, hGreatest⟩ := isGreatest_of_greatestGain? hBest
  obtain ⟨b, hb, rfl⟩ := List.mem_map.mp hMem
  have hTies := ties_eq hBest
  -- The greatest gain is close to itself, so there is something to pick.
  have hTie : b ∈ f.ties := by
    rw [hTies]
    exact List.mem_filter.mpr ⟨hb, close_self (hExact.finite b hb)⟩
  have hSome : 0 < f.ties.length := List.length_pos_of_mem hTie
  unfold best? pick at h
  rw [dif_pos hSome] at h
  dsimp only at h
  generalize (ch.choose f.ties.length hSome random).1 = i at h
  rw [Option.bind_some] at h
  have hPicked : f.ties[i] ∈ f.ties := List.getElem_mem _
  generalize f.ties[i] = picked at h hPicked
  split at h
  · rename_i hLe
    rw [hTies] at hPicked
    obtain ⟨hTrial, hClose⟩ := List.mem_filter.mp hPicked
    have hNear := (abs_le.mp ((hExact.close_iff picked hTrial b hb).mp hClose)).1
    have hSmall := (hExact.le_iff picked hTrial).mp hLe
    have hProper := proper_of_isFinite (hExact.finite t ht)
    have hBelow := (hGreatest _ (List.mem_map_of_mem ht) hProper).2
    linarith
  · cases h

end Offer

end Loadout
