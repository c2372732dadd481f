import Loadout.Proofs.Search.Provenance
import Loadout.Proofs.Search.Ties

/-!
# A search without ties is determined by what it may use

A move chooses at random only among loadouts whose gains are close to the greatest one, and in the order
in which they are offered. If there is never more than one of those, neither the random choices nor the
order of the mods and the weapons of the search make a difference: two such searches make the same moves.

* `Reordered.offer`: searches with reordered options offer the same loadouts;
* `Reordered.best?_eq`: what is taken of them if there is at most one;
* `SearchState.run_eq`: two runs stay in step, move by move;
* `search_eq_of_reordered`: the searches have the same build, log and number of rounds.
-/

namespace Loadout

open Number.Binary

/-- Options that differ in nothing but the order of the mods and the weapons and in the seed. -/
structure SearchOptions.Reordered (o o' : SearchOptions) : Prop where
  mods : o.mods.Perm o'.mods
  meleeWeapons : o.meleeWeapons.Perm o'.meleeWeapons
  rangedWeapons : o.rangedWeapons.Perm o'.rangedWeapons
  categories : o'.categories = o.categories
  preserved : o'.preserved = o.preserved
  fixedMelee : o'.fixedMelee = o.fixedMelee
  fixedRanged : o'.fixedRanged = o.fixedRanged
  maxIterations : o'.maxIterations = o.maxIterations

namespace SearchOptions.Reordered

variable {o o' : SearchOptions}

theorem weapons (h : o.Reordered o') (slot : WeaponSlot) : (o.weapons slot).Perm (o'.weapons slot) := by
  cases slot with
  | melee => exact h.meleeWeapons
  | ranged => exact h.rangedWeapons
  | resonance => exact .nil

theorem moves (h : o.Reordered o') : o'.moves = o.moves := by
  unfold SearchOptions.moves SearchOptions.searched
  rw [h.categories, h.preserved, h.fixedMelee, h.fixedRanged]

end SearchOptions.Reordered

/-! ## Offers of the same loadouts -/

/-- Two offers of the same loadouts, in any order. -/
structure Offer.Reordered {K : Type} (f f' : Offer K) : Prop where
  trials : f.trials.Perm f'.trials
  least : f'.least = f.least

section

variable {K : Type} [Number K] {o o' : SearchOptions} (b : Build K)

theorem Build.reordered_extensions (c : ModCategory) (skip : Option Nat)
    (event : String → K → SearchEvent K) (h : o.mods.Perm o'.mods) :
    (b.extensions c skip o.mods event).Perm (b.extensions c skip o'.mods event) :=
  (h.filterMap _).map _

/-- Searches with reordered options offer the same. -/
theorem SearchOptions.Reordered.offer (h : o.Reordered o') (m : Move) :
    (b.offer o m).Reordered (b.offer o' m) := by
  cases m with
  | category c =>
    simp only [Build.offer, Build.categoryOffer]
    split
    · exact ⟨b.reordered_extensions c none _ h.mods, rfl⟩
    · unfold Build.swapOffer
      split
      · exact ⟨.refl _, rfl⟩
      · exact ⟨Build.reordered_extensions _ c _ _ h.mods, rfl⟩
  | weapon slot =>
    simp only [Build.offer, Build.weaponOffer]
    split
    · exact ⟨.refl _, rfl⟩
    · exact ⟨((h.weapons slot).filterMap _).map _, rfl⟩

end

namespace Offer

variable {f f' : Offer Float} {σ σ' : Type} {ch : Chooser σ} {ch' : Chooser σ'}

/-- Without ties the same loadout is taken of the same offer. -/
theorem Reordered.best?_eq (h : f.Reordered f') (hTies : f.ties.length ≤ 1) (random : σ)
    (random' : σ') : (f'.best? ch' random').1 = (f.best? ch random).1 := by
  have hPerm := ties_perm h.trials
  have hPick : (f'.pick ch' random').1 = (f.pick ch random).1 := by
    cases hList : f.ties with
    | nil =>
      rw [hList] at hPerm
      rw [pick_of_ties_eq_nil ch random hList, pick_of_ties_eq_nil ch' random' hPerm.nil_eq.symm]
    | cons t rest =>
      rw [hList, List.length_cons] at hTies
      obtain rfl : rest = [] := List.eq_nil_of_length_eq_zero (by omega)
      rw [hList] at hPerm
      rw [pick_of_ties_eq_singleton ch random hList,
        pick_of_ties_eq_singleton ch' random' hPerm.singleton_eq.symm]
  unfold best?
  dsimp only
  rw [hPick, h.least]

end Offer

/-! ## Two runs in step -/

namespace SearchState

section

variable {K σ : Type} [Number K] (ch : Chooser σ) (o : SearchOptions)

theorem attempts_append (s : SearchState K σ) (ms ms' : List Move) :
    s.attempts ch o (ms ++ ms') =
      s.attempts ch o ms ++ (ms.foldl (step ch o) s).attempts ch o ms' := by
  induction ms generalizing s with
  | nil => rfl
  | cons m rest ih => rw [List.cons_append, attempts, attempts, ih, List.cons_append, List.foldl_cons]

end

variable {σ σ' : Type} {ch : Chooser σ} {ch' : Chooser σ'} {o o' : SearchOptions}
  {s : SearchState Float σ} {s' : SearchState Float σ'}

/-- Two searches have come to the same build with the same lines. -/
structure InStep (s : SearchState Float σ) (s' : SearchState Float σ') : Prop where
  build : s'.build = s.build
  log : s'.log = s.log

theorem InStep.step (h : s.InStep s') (ho : o.Reordered o') {m : Move}
    (hTies : (s.build.offer o m).ties.length ≤ 1) : (s.step ch o m).InStep (s'.step ch' o' m) := by
  have hBest : ((s'.build.offer o' m).best? ch' s'.random).1 =
      ((s.build.offer o m).best? ch s.random).1 := by
    rw [h.build]
    exact (ho.offer s.build m).best?_eq hTies s.random s'.random
  unfold SearchState.step
  generalize (s'.build.offer o' m).best? ch' s'.random = taken' at hBest
  generalize (s.build.offer o m).best? ch s.random = taken at hBest
  obtain ⟨t, random⟩ := taken
  obtain ⟨t', random'⟩ := taken'
  cases hBest
  cases t with
  | none => exact ⟨h.build, h.log⟩
  | some t => exact ⟨rfl, congrArg (· ++ [t.event]) h.log⟩

theorem InStep.foldl (h : s.InStep s') (ho : o.Reordered o') {ms : List Move}
    (hTies : ∀ a ∈ s.attempts ch o ms, (a.1.build.offer o a.2).ties.length ≤ 1) :
    (ms.foldl (SearchState.step ch o) s).InStep (ms.foldl (SearchState.step ch' o') s') := by
  induction ms generalizing s s' with
  | nil => exact h
  | cons m rest ih =>
    obtain ⟨hFirst, hRest⟩ := List.forall_mem_cons.mp hTies
    exact ih (h.step ho hFirst) hRest

/-- Two runs that start in step end alike. -/
theorem run_eq (h : s.InStep s') (ho : o.Reordered o') (left iterations : Nat)
    (hTies : ∀ a ∈ s.attempts ch o
        (List.replicate ((s.run ch o left iterations).iterations - iterations) o.moves).flatten,
      (a.1.build.offer o a.2).ties.length ≤ 1) :
    s'.run ch' o' left iterations = s.run ch o left iterations := by
  induction left generalizing s s' iterations with
  | zero =>
    change SearchResult.mk _ _ _ = SearchResult.mk _ _ _
    rw [h.build, h.log]
  | succ left ih =>
    obtain ⟨hLow, -⟩ := (s.round ch o).iterations_run ch o left (iterations + 1)
    -- At least one round is made, and its moves come first.
    have hRounds : 0 < (s.run ch o (left + 1) iterations).iterations - iterations := by
      unfold run
      dsimp only
      split
      · change 0 < iterations + 1 - iterations
        omega
      · omega
    obtain ⟨n, hn⟩ := Nat.exists_eq_succ_of_ne_zero hRounds.ne'
    rw [hn, Nat.succ_eq_add_one, List.replicate_succ, List.flatten_cons, attempts_append,
      List.forall_mem_append] at hTies
    obtain ⟨hRound, hRest⟩ := hTies
    have hAfter : (s.round ch o).InStep (s'.round ch' o') := by
      unfold round
      rw [ho.moves]
      exact h.foldl ho hRound
    unfold run at hn ⊢
    dsimp only at hn ⊢
    rw [hAfter.log, h.log]
    split
    · unfold finish
      rw [hAfter.build, hAfter.log]
    · rename_i hGoesOn
      rw [if_neg hGoesOn] at hn
      apply ih hAfter
      have hCount : ((s.round ch o).run ch o left (iterations + 1)).iterations - (iterations + 1) = n := by
        omega
      rw [hCount]
      exact hRest

end SearchState

namespace Build

/-- If no move of a search has ties, every way to choose, every seed and every order of the mods and the
weapons leads to the same result. -/
theorem search_eq_of_reordered {σ σ' : Type} (b : Build Float) (o o' : SearchOptions) (ch : Chooser σ)
    (ch' : Chooser σ') (random : σ) (random' : σ')
    (hTies : ∀ a ∈ b.attempts o ch random, (a.1.build.offer o a.2).ties.length ≤ 1)
    (ho : o.Reordered o') :
    b.search o' ch' random' = b.search o ch random ∧
      b.searchSeeded o' ch' random' = b.search o ch random := by
  have hRun {τ : Type} (ch' : Chooser τ) (random' : τ) :
      b.search o' ch' random' = b.search o ch random := by
    have hStart : (SearchState.mk b [] random).InStep (SearchState.mk b [] random') := ⟨rfl, rfl⟩
    unfold search
    rw [ho.maxIterations]
    exact SearchState.run_eq hStart ho o.maxIterations 0 hTies
  refine ⟨hRun ch' random', ?_⟩
  unfold searchSeeded
  split
  · exact hRun _ _
  · exact hRun ch' random'

/-- The way to choose that takes the last of all. -/
def takeLast : Chooser Unit := ⟨fun _ h s => (⟨_, Nat.sub_one_lt_of_lt h⟩, s)⟩

/-- The search for melee mods and a melee weapon with the mods in the other order, and a seed. -/
def refittingReversed : SearchOptions :=
  { refitting with mods := refitting.mods.reverse, seed := some 7 }

/-- No two gains are close in a search that adds two mods and replaces a weapon. -/
theorem search_eq_of_reordered_refitting :
    (∀ a ∈ unfitted.attempts refitting takeFirst (), (a.1.build.offer refitting a.2).ties.length ≤ 1) ∧
      refitting.Reordered refittingReversed ∧
      unfitted.search refittingReversed takeLast () = unfitted.search refitting takeFirst () ∧
      unfitted.searchSeeded refittingReversed takeLast () = unfitted.search refitting takeFirst () := by
  have hTies : ∀ a ∈ unfitted.attempts refitting takeFirst (),
      (a.1.build.offer refitting a.2).ties.length ≤ 1 := by decide +kernel
  have hReordered : refitting.Reordered refittingReversed :=
    ⟨(List.reverse_perm _).symm, .refl _, .refl _, rfl, rfl, rfl, rfl, rfl⟩
  exact ⟨hTies, hReordered,
    search_eq_of_reordered unfitted refitting _ takeFirst takeLast () () hTies hReordered⟩

end Build

end Loadout
