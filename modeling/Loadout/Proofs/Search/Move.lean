import Loadout.Proofs.Build.Gain
import Loadout.Search.Run

/-!
# What a move of a search does

A move leaves the loadout as it is or takes one of the loadouts that it offers, and then the gain of that
one exceeds what the offer asks for. A gain compares scores, and which ones differs between the moves: a
mod that is added and a weapon are measured against the present loadout, while a mod that takes the place
of another one is measured against the loadout without it, and so is the other one.

* `SearchState.step_cases`: the two things that a move may do;
* `mem_trials_category`, `mem_trials_weapon`: how an offered loadout is made of the present one;
* `score_lt_of_trial`: an offered loadout that is taken has the greater score.
-/

namespace Loadout

/-! ## Taking an offer -/

section Offers

variable {K σ : Type} [Number K]

namespace Offer

theorem mem_ties {o : Offer K} {t : Trial K} (h : t ∈ o.ties) : t ∈ o.trials := by
  unfold ties at h
  split at h
  · cases h
  · exact (List.mem_filter.mp h).1

theorem mem_trials_of_pick {ch : Chooser σ} {o : Offer K} {s s' : σ} {t : Trial K}
    (h : o.pick ch s = (some t, s')) : t ∈ o.trials := by
  unfold pick at h
  split at h
  · cases h
    exact mem_ties (List.getElem_mem _)
  · cases h

/-- What is taken was offered, and its gain is enough. -/
theorem mem_trials_of_best? {ch : Chooser σ} {o : Offer K} {s s' : σ} {t : Trial K}
    (h : o.best? ch s = (some t, s')) : t ∈ o.trials ∧ ¬ t.gain ≤ o.least := by
  unfold best? at h
  obtain ⟨hTaken, -⟩ := Prod.mk.inj h
  obtain ⟨t', hPick, hGain⟩ := Option.bind_eq_some_iff.mp hTaken
  split at hGain
  · cases hGain
  · rename_i hEnough
    cases hGain
    exact ⟨mem_trials_of_pick (Prod.ext hPick rfl), hEnough⟩

end Offer

/-- A move changes nothing and adds no line, or it takes a loadout that it offers and adds its line. -/
theorem SearchState.step_cases (ch : Chooser σ) (o : SearchOptions) (s : SearchState K σ) (m : Move) :
    ((s.step ch o m).build = s.build ∧ (s.step ch o m).log = s.log) ∨
      ∃ t ∈ (s.build.offer o m).trials, ¬ t.gain ≤ (s.build.offer o m).least ∧
        (s.step ch o m).build = t.build ∧ (s.step ch o m).log = s.log ++ [t.event] := by
  unfold step
  split
  · rename_i t random hBest
    obtain ⟨hMem, hGain⟩ := Offer.mem_trials_of_best? hBest
    exact .inr ⟨t, hMem, hGain, rfl, rfl⟩
  · exact .inl ⟨rfl, rfl⟩

end Offers

namespace Build

section Trials

variable {K : Type} [Number K] {b : Build K}

/-! ## What is offered -/

/-- A mod is offered that is known, of the category and not to be skipped, and that can be equipped. -/
theorem extend?_eq_some {c : ModCategory} {skip : Option Nat} {choice : ModChoice}
    {e : Build K × ModRecord K} (h : b.extend? c skip choice = some e) :
    b.database.mod choice.id = .ok e.2 ∧ e.2.category = c ∧ some e.2.id ≠ skip ∧
      b.equip choice.id choice.rank = .ok e.1 := by
  unfold extend? at h
  split at h
  · cases h
  · rename_i r hRecord
    split at h
    · rename_i hWanted
      split at h
      · rename_i extended hEquip
        cases h
        exact ⟨hRecord, hWanted.1, hWanted.2, hEquip⟩
      · cases h
    · cases h

theorem mem_extensions {c : ModCategory} {skip : Option Nat} {choices : List ModChoice}
    {event : String → K → SearchEvent K} {t : Trial K} (h : t ∈ b.extensions c skip choices event) :
    t.gain = relativeGain b.score t.build.score ∧
      ∃ choice ∈ choices, ∃ r, b.extend? c skip choice = some (t.build, r) := by
  obtain ⟨e, hExtended, rfl⟩ := List.mem_map.mp h
  obtain ⟨choice, hChoice, hExtend⟩ := List.mem_filterMap.mp hExtended
  exact ⟨rfl, choice, hChoice, e.2, hExtend⟩

theorem switch?_eq_some {slot : WeaponSlot} {current : Weapon K} {name : String}
    {changed : Build K × List String} (h : b.switch? slot current name = some changed) :
    name ≠ current.name ∧
      b.setWeapon slot name (some current.refine) (some current.level) = .ok changed := by
  unfold switch? at h
  split at h
  · cases h
  · rename_i hName
    split at h
    · rename_i hSet
      cases h
      exact ⟨hName, hSet⟩
    · cases h

theorem foldl_worst_mem (rest : List (Rated K)) (r : Rated K) :
    rest.foldl (fun worst r => if Number.before r.gain worst.gain then r else worst) r ∈
      r :: rest := by
  induction rest generalizing r with
  | nil => exact List.mem_singleton_self r
  | cons r' rest ih =>
    rw [List.foldl_cons]
    split
    · exact List.mem_cons_of_mem _ (ih r')
    · rcases List.mem_cons.mp (ih r) with hEq | hMem
      · rw [hEq]
        exact List.mem_cons_self
      · exact List.mem_cons_of_mem _ (List.mem_cons_of_mem _ hMem)

/-- The worst one of a list is in it. -/
theorem mem_of_worst? {rs : List (Rated K)} {worst : Rated K} (h : worst? rs = some worst) :
    worst ∈ rs := by
  cases rs with
  | nil => cases h
  | cons r rest =>
    cases h
    exact foldl_worst_mem rest r

/-- The loadout without the worst mod of a category. -/
def reduced (b : Build K) (worst : Rated K) : Build K := (b.unequip? worst.mod.id).getD b

theorem exists_of_worst? {c : ModCategory} {worst : Rated K} (h : worst? (b.rated c) = some worst) :
    worst.mod ∈ b.mods.get c ∧
      worst.gain = b.gainRemoving (.mod worst.mod.id (some worst.mod.rank)) := by
  obtain ⟨m, hm, rfl⟩ := List.mem_map.mp (mem_of_worst? h)
  exact ⟨hm, rfl⟩

/-- What a mod adds is measured against the loadout without it, unless it cannot be taken out. -/
theorem gainRemoving_eq (b : Build K) (id : Nat) (rank : Option Nat) :
    (∃ other, b.unequip? id = some other ∧
        b.gainRemoving (.mod id rank) = relativeGain other.score b.score) ∨
      b.unequip? id = none ∧ b.gainRemoving (.mod id rank) = 0.0 := by
  unfold gainRemoving removeCandidate?
  dsimp only
  split
  · rename_i other hOther
    exact .inl ⟨other, hOther, rfl⟩
  · rename_i hNone
    exact .inr ⟨hNone, rfl⟩

/-- The loadout that the gains of a move are measured against, if it may offer something. -/
def baseline? (b : Build K) : Move → Option (Build K)
  | .category c =>
    if (b.mods.get c).length < c.cap then some b else (worst? (b.rated c)).map b.reduced
  | .weapon slot => (b.weapon? slot).map fun _ => b

/-- In a category with room a mod is added; in a full one a mod is added to the loadout without the
worst mod. -/
theorem mem_trials_category {o : SearchOptions} {c : ModCategory} {t : Trial K}
    (h : t ∈ (b.offer o (.category c)).trials) :
    ∃ base skip, b.baseline? (.category c) = some base ∧
      (∃ choice ∈ o.mods, ∃ r, base.extend? c skip choice = some (t.build, r)) ∧
      t.gain = relativeGain base.score t.build.score ∧
      ((base = b ∧ (b.offer o (.category c)).least = 0.0) ∨
        ∃ worst, worst? (b.rated c) = some worst ∧ base = b.reduced worst ∧
          (b.offer o (.category c)).least = worst.gain + 1e-9) := by
  unfold offer categoryOffer baseline? at *
  dsimp only at h ⊢
  split
  · rename_i hRoom
    rw [if_pos hRoom] at h
    obtain ⟨hGain, choice, hChoice, r, hExtend⟩ := mem_extensions h
    exact ⟨b, none, rfl, ⟨choice, hChoice, r, hExtend⟩, hGain, .inl ⟨rfl, rfl⟩⟩
  · rename_i hFull
    rw [if_neg hFull] at h
    unfold swapOffer at h ⊢
    split at h
    · cases h
    · rename_i worst hWorst
      obtain ⟨hGain, choice, hChoice, r, hExtend⟩ := mem_extensions h
      rw [hWorst]
      exact ⟨b.reduced worst, some worst.mod.id, rfl, ⟨choice, hChoice, r, hExtend⟩, hGain,
        .inr ⟨worst, rfl, rfl, rfl⟩⟩

/-- In a weapon slot another weapon of the list takes the place of the present one. -/
theorem mem_trials_weapon {o : SearchOptions} {slot : WeaponSlot} {t : Trial K}
    (h : t ∈ (b.offer o (.weapon slot)).trials) :
    ∃ current name dropped, b.weapon? slot = some current ∧ name ∈ o.weapons slot ∧
      name ≠ current.name ∧
      b.setWeapon slot name (some current.refine) (some current.level) = .ok (t.build, dropped) ∧
      t.gain = relativeGain b.score t.build.score ∧
      (b.offer o (.weapon slot)).least = 1e-9 := by
  unfold offer weaponOffer at h ⊢
  dsimp only at h ⊢
  split at h
  · cases h
  · rename_i current hCurrent
    obtain ⟨changed, hChanged, rfl⟩ := List.mem_map.mp h
    obtain ⟨name, hName, hSwitch⟩ := List.mem_filterMap.mp hChanged
    obtain ⟨hOther, hSet⟩ := switch?_eq_some hSwitch
    exact ⟨current, name, changed.2, hCurrent, hName, hOther, hSet, rfl, rfl⟩

/-! ## What is scored -/

/-- The loadouts that are scored to make a move. The worth of a mod is found by scoring the loadout
without it. -/
def scored (b : Build K) (o : SearchOptions) : Move → List (Build K)
  | .category c =>
    if (b.mods.get c).length < c.cap then
      b :: (b.fillOffer c o.mods).trials.map (·.build)
    else
      match worst? (b.rated c) with
      | none => []
      | some worst =>
        b :: (b.mods.get c).filterMap (fun m => b.unequip? m.id) ++
          b.reduced worst :: (b.swapOffer c o.mods).trials.map (·.build)
  | .weapon slot =>
    match b.weapon? slot with
    | none => []
    | some _ => b :: (b.weaponOffer slot (o.weapons slot)).trials.map (·.build)

/-- Whatever is offered was scored, and so was the present loadout. -/
theorem mem_scored {o : SearchOptions} {m : Move} {t : Trial K} (h : t ∈ (b.offer o m).trials) :
    b ∈ b.scored o m ∧ t.build ∈ b.scored o m := by
  have hBuild {f : Offer K} (ht : t ∈ f.trials) : t.build ∈ f.trials.map (·.build) :=
    List.mem_map_of_mem ht
  cases m with
  | category c =>
    simp only [offer, categoryOffer] at h
    simp only [scored]
    split
    · rename_i hRoom
      rw [if_pos hRoom] at h
      exact ⟨List.mem_cons_self, List.mem_cons_of_mem _ (hBuild h)⟩
    · rename_i hFull
      rw [if_neg hFull] at h
      split
      · rename_i hNone
        rw [swapOffer, hNone] at h
        cases h
      · exact ⟨List.mem_cons_self, List.mem_append_right _ (List.mem_cons_of_mem _ (hBuild h))⟩
  | weapon slot =>
    simp only [offer] at h
    simp only [scored]
    split
    · rename_i hNone
      rw [weaponOffer, hNone] at h
      cases h
    · exact ⟨List.mem_cons_self, List.mem_cons_of_mem _ (hBuild h)⟩

/-- What gains are measured against was scored. -/
theorem baseline?_mem_scored {o : SearchOptions} {m : Move} {base : Build K}
    (h : b.baseline? m = some base) : base ∈ b.scored o m := by
  cases m with
  | category c =>
    simp only [baseline?] at h
    simp only [scored]
    split at h
    · rename_i hRoom
      cases h
      rw [if_pos hRoom]
      exact List.mem_cons_self
    · rename_i hFull
      obtain ⟨worst, hWorst, rfl⟩ := Option.map_eq_some_iff.mp h
      rw [if_neg hFull, hWorst]
      exact List.mem_append_right _ List.mem_cons_self
  | weapon slot =>
    obtain ⟨current, hCurrent, rfl⟩ := Option.map_eq_some_iff.mp h
    simp only [scored, hCurrent]
    exact List.mem_cons_self

end Trials

/-! ## What is taken has the greater score -/

section Scores

variable {b : Build Float}

/-- The scores of a move can be compared: all of them are finite, and gains are not measured against a
score below zero. -/
structure Comparable (b : Build Float) (o : SearchOptions) (m : Move) : Prop where
  finite : ∀ x ∈ b.scored o m, x.score.isFinite = true
  nonneg : ∀ base ∈ b.baseline? m, 0.0 ≤ base.score

theorem Comparable.of_isPlain {o : SearchOptions} {m : Move}
    (h : ∀ x ∈ b.scored o m, IsPlain x.score) : b.Comparable o m where
  finite x hx := (h x hx).isFinite
  nonneg _ hBase := (h _ (baseline?_mem_scored hBase)).nonneg

instance {o : SearchOptions} {m : Move} : Decidable (b.Comparable o m) :=
  decidable_of_iff
    ((∀ x ∈ b.scored o m, x.score.isFinite = true) ∧ ∀ base ∈ b.baseline? m, 0.0 ≤ base.score)
    ⟨fun h => ⟨h.1, h.2⟩, fun h => ⟨h.1, h.2⟩⟩

theorem Comparable.isPlain {o : SearchOptions} {m : Move} (h : b.Comparable o m) {base : Build Float}
    (hBase : b.baseline? m = some base) : IsPlain base.score :=
  ⟨h.finite base (baseline?_mem_scored hBase), h.nonneg base hBase⟩

/-- A mod is swapped for one that adds more to the loadout without both of them. If the worst mod could
not be taken out, it counts as worth nothing, and the other one is measured against the present
loadout. -/
theorem score_lt_of_swap {worst : Rated Float} {c : ModCategory} {t : Trial Float}
    (hWorst : worst? (b.rated c) = some worst) (hBuild : b.score.isFinite = true)
    (hReduced : IsPlain (b.reduced worst).score) (hTrial : t.build.score.isFinite = true)
    (hGain : t.gain = relativeGain (b.reduced worst).score t.build.score)
    (h : ¬ t.gain ≤ worst.gain + 1e-9) : b.score < t.build.score := by
  obtain ⟨-, hWorth⟩ := exists_of_worst? hWorst
  rw [hGain] at h
  rcases b.gainRemoving_eq worst.mod.id (some worst.mod.rank) with
    ⟨other, hOther, hEq⟩ | ⟨hNone, hEq⟩
  · have hSame : b.reduced worst = other := by rw [reduced, hOther, Option.getD_some]
    rw [hSame] at h hReduced
    rw [hWorth, hEq] at h
    exact lt_of_relativeGain_of_relativeGain hReduced hBuild hTrial ⟨by decide, by decide⟩ h
  · have hSame : b.reduced worst = b := by rw [reduced, hNone, Option.getD_none]
    rw [hSame] at h hReduced
    rw [hWorth, hEq] at h
    exact lt_of_relativeGain hReduced hTrial ⟨by decide, by decide⟩ h

/-- If the scores of a move can be compared, what is taken has a greater score than the present
loadout. -/
theorem score_lt_of_trial {o : SearchOptions} {m : Move} {t : Trial Float} (hScores : b.Comparable o m)
    (hMem : t ∈ (b.offer o m).trials) (h : ¬ t.gain ≤ (b.offer o m).least) :
    b.score < t.build.score := by
  obtain ⟨hStart, hEnd⟩ := mem_scored hMem
  have hBuild := hScores.finite b hStart
  have hTrial := hScores.finite t.build hEnd
  cases m with
  | category c =>
    obtain ⟨base, -, hBaseline, -, hGain, hBase⟩ := mem_trials_category hMem
    have hPlain := hScores.isPlain hBaseline
    rcases hBase with ⟨rfl, hLeast⟩ | ⟨worst, hWorst, rfl, hLeast⟩
    · rw [hGain, hLeast] at h
      exact lt_of_relativeGain hPlain hTrial ⟨by decide, by decide⟩ h
    · rw [hLeast] at h
      exact score_lt_of_swap hWorst hBuild hPlain hTrial hGain h
  | weapon slot =>
    obtain ⟨current, -, -, hCurrent, -, -, -, hGain, hLeast⟩ := mem_trials_weapon hMem
    have hPlain : IsPlain b.score :=
      hScores.isPlain (m := .weapon slot) (by rw [baseline?, hCurrent, Option.map_some])
    rw [hGain, hLeast] at h
    exact lt_of_relativeGain hPlain hTrial ⟨by decide, by decide⟩ h

end Scores

end Build

end Loadout
