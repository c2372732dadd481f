import Loadout.Proofs.Search.Formable
import Mathlib.Data.List.Pairwise
import Mathlib.Data.Set.Card

/-!
# A search makes progress

Every change that a search makes raises the score, as long as all that is scored has a score that may be
compared. So a search never comes back to an outfit, and as there are finitely many of them it ends of
itself, unless it is stopped before.

* `SearchState.run_spec`: a run makes some rounds of moves, and either the last one has changed nothing or
  every one of them has changed something;
* `pairwise_visits`: the builds that a search comes to have ascending scores;
* `score_le_search`: the build that is found is no worse than the one at the start;
* `search_progress`: no outfit is visited twice, and a search that is allowed as many rounds as there are
  outfits settles.
-/

namespace Loadout

/-! ## The moves of a run -/

namespace SearchState

variable {K σ : Type} [Number K]

/-- The states in which moves are made, each with its move. -/
def attempts (ch : Chooser σ) (o : SearchOptions) (s : SearchState K σ) :
    List Move → List (SearchState K σ × Move)
  | [] => []
  | m :: rest => (s, m) :: (s.step ch o m).attempts ch o rest

/-- The builds that moves come to, one for each line that they add. -/
def visits (ch : Chooser σ) (o : SearchOptions) (s : SearchState K σ) : List Move → List (Build K)
  | [] => []
  | m :: rest =>
    let after := s.step ch o m
    if after.log.length = s.log.length then after.visits ch o rest
    else after.build :: after.visits ch o rest

variable (ch : Chooser σ) (o : SearchOptions)

/-- A move that adds no line changes nothing; one that adds a line has taken something that exceeds what
was asked for. -/
theorem step_of_length_ne {s : SearchState K σ} {m : Move}
    (h : (s.step ch o m).log.length ≠ s.log.length) :
    ∃ t ∈ (s.build.offer o m).trials, ¬ t.gain ≤ (s.build.offer o m).least ∧
      (s.step ch o m).build = t.build ∧ (s.step ch o m).log = s.log ++ [t.event] := by
  rcases s.step_cases ch o m with ⟨-, hLog⟩ | hTaken
  · exact absurd (congrArg List.length hLog) h
  · exact hTaken

theorem build_step_of_length_eq {s : SearchState K σ} {m : Move}
    (h : (s.step ch o m).log.length = s.log.length) : (s.step ch o m).build = s.build := by
  rcases s.step_cases ch o m with ⟨hBuild, -⟩ | ⟨t, -, -, -, hLog⟩
  · exact hBuild
  · rw [hLog, List.length_append, List.length_singleton] at h
    omega

theorem length_log_foldl (s : SearchState K σ) (ms : List Move) :
    (ms.foldl (step ch o) s).log.length = s.log.length + (s.visits ch o ms).length := by
  induction ms generalizing s with
  | nil => rfl
  | cons m rest ih =>
    rw [List.foldl_cons, ih, visits]
    by_cases h : (s.step ch o m).log.length = s.log.length
    · rw [if_pos h, h]
    · obtain ⟨t, -, -, -, hLog⟩ := step_of_length_ne ch o h
      rw [if_neg h, hLog, List.length_append, List.length_singleton, List.length_cons]
      omega

/-- The moves end at the last build that they have come to. -/
theorem build_foldl_mem (s : SearchState K σ) (ms : List Move) :
    (ms.foldl (step ch o) s).build ∈ s.build :: s.visits ch o ms := by
  induction ms generalizing s with
  | nil => exact List.mem_singleton_self _
  | cons m rest ih =>
    rw [List.foldl_cons, visits]
    by_cases h : (s.step ch o m).log.length = s.log.length
    · rw [if_pos h, ← build_step_of_length_eq ch o h]
      exact ih _
    · rw [if_neg h]
      exact List.mem_cons_of_mem _ (ih _)

/-- A run makes some rounds. It has settled after them, or there were as many as allowed and every one of
them has added a line. -/
theorem run_spec (s : SearchState K σ) (left iterations : Nat) :
    ∃ n final, final = (List.replicate n o.moves).flatten.foldl (step ch o) s ∧
      (s.run ch o left iterations).iterations = iterations + n ∧
      (s.run ch o left iterations).build = final.build ∧
      ((s.run ch o left iterations).log = final.log ++ [.settled (iterations + n)] ∨
        (s.run ch o left iterations).log = final.log ++ [.stopped (iterations + n)] ∧
          s.log.length + left ≤ final.log.length) := by
  induction left generalizing s iterations with
  | zero => exact ⟨0, s, rfl, rfl, rfl, .inr ⟨rfl, Nat.le_refl _⟩⟩
  | succ left ih =>
    have hRound : s.round ch o = o.moves.foldl (step ch o) s := rfl
    have hGrows := length_log_foldl ch o s o.moves
    rw [← hRound] at hGrows
    unfold run
    dsimp only
    by_cases hSettled : (s.round ch o).log.length = s.log.length
    · rw [if_pos hSettled]
      exact ⟨1, s.round ch o, by simp [hRound], rfl, rfl, .inl rfl⟩
    · rw [if_neg hSettled]
      obtain ⟨n, final, hFinal, hIterations, hBuild, hLog⟩ := ih (s.round ch o) (iterations + 1)
      have hCount : iterations + 1 + n = iterations + (n + 1) := by omega
      rw [hCount] at hIterations hLog
      refine ⟨n + 1, final, ?_, hIterations, hBuild, ?_⟩
      · rw [List.replicate_succ, List.flatten_cons, List.foldl_append, ← hRound]
        exact hFinal
      · refine hLog.imp_right fun ⟨hStopped, hLength⟩ => ⟨hStopped, ?_⟩
        omega

/-! ## The builds that are visited -/

variable {ch o} {b : Build K}

theorem formable_visits {s : SearchState K σ} {ms : List Move} (hMoves : ∀ m ∈ ms, m ∈ o.moves)
    (h : b.Formable o s.build) : ∀ x ∈ s.visits ch o ms, b.Formable o x := by
  induction ms generalizing s with
  | nil => exact fun x hx => absurd hx List.not_mem_nil
  | cons m rest ih =>
    have hRest : ∀ m ∈ rest, m ∈ o.moves := fun m hm => hMoves m (List.mem_cons_of_mem _ hm)
    rw [visits]
    by_cases hLog : (s.step ch o m).log.length = s.log.length
    · rw [if_pos hLog]
      exact ih hRest (build_step_of_length_eq ch o hLog ▸ h)
    · obtain ⟨t, ht, -, hBuild, -⟩ := step_of_length_ne ch o hLog
      have hAfter : b.Formable o (s.step ch o m).build :=
        hBuild ▸ h.trial (hMoves m List.mem_cons_self) ht
      rw [if_neg hLog]
      intro x hx
      rcases List.mem_cons.mp hx with rfl | hx
      · exact hAfter
      · exact ih hRest hAfter x hx

end SearchState

/-! ## Scores -/

open Number.Binary

/-- Two builds have finite scores, and the second one has the greater. -/
structure Build.Below (x y : Build Float) : Prop where
  left : x.score.isFinite = true
  right : y.score.isFinite = true
  lt : x.score < y.score

theorem Build.Below.trans {x y z : Build Float} (h : x.Below y) (h' : y.Below z) : x.Below z := by
  have hx := proper_of_isFinite h.left
  have hy := proper_of_isFinite h.right
  have hz := proper_of_isFinite h'.right
  refine ⟨h.left, h'.right, (lt_iff_place hx hz).mpr ?_⟩
  exact ((lt_iff_place hx hy).mp h.lt).trans ((lt_iff_place hy hz).mp h'.lt)

instance : IsTrans (Build Float) Build.Below := ⟨fun _ _ _ => Build.Below.trans⟩

theorem Build.Below.irrefl (x : Build Float) : ¬ x.Below x := by
  intro h
  have hx := proper_of_isFinite h.left
  exact lt_irrefl _ ((lt_iff_place hx hx).mp h.lt)

namespace SearchState

variable {σ : Type} {ch : Chooser σ} {o : SearchOptions}

/-- A move that adds a line raises the score. -/
theorem below_step {s : SearchState Float σ} {m : Move} (hScores : s.build.Comparable o m)
    (h : (s.step ch o m).log.length ≠ s.log.length) :
    s.build.Below (s.step ch o m).build := by
  obtain ⟨t, ht, hGain, hBuild, -⟩ := step_of_length_ne ch o h
  obtain ⟨hStart, hEnd⟩ := Build.mem_scored ht
  rw [hBuild]
  exact ⟨hScores.finite _ hStart, hScores.finite _ hEnd, Build.score_lt_of_trial hScores ht hGain⟩

/-- The builds that moves come to have ascending scores. -/
theorem pairwise_visits {s : SearchState Float σ} {ms : List Move}
    (hScores : ∀ a ∈ s.attempts ch o ms, a.1.build.Comparable o a.2) :
    (s.build :: s.visits ch o ms).Pairwise Build.Below := by
  induction ms generalizing s with
  | nil => exact List.pairwise_singleton _ _
  | cons m rest ih =>
    have hRest := ih fun a ha => hScores a (List.mem_cons_of_mem _ ha)
    rw [visits]
    by_cases hLog : (s.step ch o m).log.length = s.log.length
    · rw [if_pos hLog, ← build_step_of_length_eq ch o hLog]
      exact hRest
    · rw [if_neg hLog, List.pairwise_cons_cons_iff_of_trans]
      exact ⟨below_step (hScores _ List.mem_cons_self) hLog, hRest⟩

end SearchState

namespace Build

section

variable {K σ : Type} [Number K]

/-- The moves that a search makes. -/
def searchMoves (b : Build K) (o : SearchOptions) (ch : Chooser σ) (random : σ) : List Move :=
  (List.replicate (b.search o ch random).iterations o.moves).flatten

/-- The states in which a search makes its moves, each with its move. -/
def attempts (b : Build K) (o : SearchOptions) (ch : Chooser σ) (random : σ) :
    List (SearchState K σ × Move) :=
  SearchState.attempts ch o ⟨b, [], random⟩ (b.searchMoves o ch random)

/-- The builds that a search visits, the one at the start first. -/
def visited (b : Build K) (o : SearchOptions) (ch : Chooser σ) (random : σ) : List (Build K) :=
  b :: SearchState.visits ch o ⟨b, [], random⟩ (b.searchMoves o ch random)

variable (b : Build K) (o : SearchOptions) (ch : Chooser σ) (random : σ)

/-- The state after all the moves of a search. -/
def searchEnd : SearchState K σ :=
  (b.searchMoves o ch random).foldl (SearchState.step ch o) ⟨b, [], random⟩

/-- A search gives the build after its moves. It has settled, or there were as many rounds as allowed and
every one of them has added a line. -/
theorem search_spec :
    (b.search o ch random).build = (b.searchEnd o ch random).build ∧
      ((b.search o ch random).log.getLast? = some (.settled (b.search o ch random).iterations) ∨
        (b.search o ch random).log.getLast? = some (.stopped (b.search o ch random).iterations) ∧
          o.maxIterations ≤ (b.searchEnd o ch random).log.length) := by
  obtain ⟨n, final, hFinal, hIterations, hBuild, hLog⟩ :=
    SearchState.run_spec ch o ⟨b, [], random⟩ o.maxIterations 0
  change (b.search o ch random).iterations = 0 + n at hIterations
  change (b.search o ch random).build = final.build at hBuild
  rw [Nat.zero_add] at hIterations hLog
  have hEnd : final = b.searchEnd o ch random := by
    rw [hFinal, searchEnd, searchMoves, hIterations]
  rw [hIterations, ← hEnd]
  refine ⟨hBuild, hLog.imp (fun hSettled => ?_) fun ⟨hStopped, hMany⟩ => ?_⟩
  · change (b.search o ch random).log = _ at hSettled
    rw [hSettled, List.getLast?_concat]
  · change (b.search o ch random).log = _ at hStopped
    rw [hStopped, List.getLast?_concat]
    rw [List.length_nil, Nat.zero_add] at hMany
    exact ⟨rfl, hMany⟩

theorem length_log_searchEnd :
    (b.searchEnd o ch random).log.length + 1 = (b.visited o ch random).length := by
  rw [searchEnd, SearchState.length_log_foldl, List.length_nil, Nat.zero_add, visited, List.length_cons]

theorem search_mem_visited : (b.search o ch random).build ∈ b.visited o ch random := by
  rw [(b.search_spec o ch random).1]
  exact SearchState.build_foldl_mem ch o ⟨b, [], random⟩ _

theorem mem_moves_of_mem_searchMoves {m : Move} (h : m ∈ b.searchMoves o ch random) :
    m ∈ o.moves := by
  obtain ⟨ms, hms, hm⟩ := List.mem_flatten.mp h
  rwa [List.eq_of_mem_replicate hms] at hm

theorem formable_visited : ∀ x ∈ b.visited o ch random, b.Formable o x := by
  intro x hx
  rcases List.mem_cons.mp hx with rfl | hx
  · exact .start
  · exact SearchState.formable_visits (fun m => b.mem_moves_of_mem_searchMoves o ch random) .start x hx

end

section

variable {σ : Type} {b : Build Float} {o : SearchOptions} {ch : Chooser σ} {random : σ}

/-- Builds with ascending scores that are made of the same build differ in their outfits. -/
theorem nodup_outfits {xs : List (Build Float)} (hFormable : ∀ x ∈ xs, b.Formable o x)
    (hBelow : xs.Pairwise Below) : (xs.map outfit).Nodup := by
  rw [List.Nodup, List.pairwise_map]
  apply hBelow.imp_of_mem
  intro x y hx hy hxy hEq
  have hSame := (hFormable x hx).sameApart.eq_of_outfit_eq (hFormable y hy).sameApart hEq
  rw [hSame] at hxy
  exact hxy.irrefl

/-- Outfits that are all different and can be formed are no more than there are. -/
theorem length_le_ncard {xs : List (Build Float)} (hFormable : ∀ x ∈ xs, b.Formable o x)
    (hNodup : (xs.map outfit).Nodup) : xs.length ≤ (b.formableOutfits o).ncard := by
  classical
  have hSubset : ((xs.map outfit).toFinset : Set (Outfit Float)) ⊆ b.formableOutfits o := by
    intro l hl
    rw [Finset.mem_coe, List.mem_toFinset, List.mem_map] at hl
    obtain ⟨x, hx, hEq⟩ := hl
    exact ⟨x, hFormable x hx, hEq⟩
  have hCard := Set.ncard_le_ncard hSubset (b.finite_formable o)
  rwa [Set.ncard_coe_finset, List.toFinset_card_of_nodup hNodup, List.length_map] at hCard

end

/-! ## A weapon to search for -/

/-- A weapon that adds half of the power. -/
def heavyBlade : WeaponRecord Float :=
  { blade 3 "剑" "单手剑" with bonuses := Bonuses.empty.add (.character .power) 0.5 }

/-- Two weapons, a mod for one of them and a mod for both. -/
def shop : Database Float :=
  { armory with
    weapons := .ofList [("刀", blade 2 "刀" "太刀"), ("剑", heavyBlade)]
    weaponsById := .ofList [(2, blade 2 "刀" "太刀"), (3, heavyBlade)]
    mods := Database.index (·.id) [exclusiveMod 4 "迅捷" (some "太刀"), exclusiveMod 5 "坚韧" none] }

/-- Options with a weapon that the other one may take the place of, scored by a formula. -/
def arming (target : String) (mods : PerCategory (List ModChoice)) : BuildOptions Float :=
  { BuildOptions.default with
    character := "测试"
    melee := "刀"
    ranged := "刀"
    mods := mods
    target := some target }

/-- What such options describe, with any melee weapon. -/
def wielding (melee : WeaponRecord Float) (target : String) (mods : PerCategory (List (Mod Float))) :
    Build Float where
  database := shop
  settings := .default
  character := .ofRecord bearer none
  skills := []
  melee := .ofRecord melee none none none none
  ranged := .ofRecord (blade 2 "刀" "太刀") none none none none
  resonance := none
  mods := mods
  aura := none
  buffs := []
  dynamicBuffs := []
  enemy := .dummy 80
  health := 1.0
  resonanceGain := 0.0
  actionName := ""
  target := target
  timeline := none

/-- The build with the weapon at the start, and no mods. -/
def lightlyArmed (target : String) : Build Float := wielding (blade 2 "刀" "太刀") target (.same [])

/-- The build with the other weapon in its place. -/
def heavilyArmed (target : String) : Build Float := wielding heavyBlade target (.same [])

/-- A search that may replace the melee weapon and is to leave the melee mods as they are. -/
def rearming : SearchOptions :=
  { SearchOptions.default with
    meleeWeapons := ["剑"]
    categories := [.melee]
    preserved := [.melee]
    fixedRanged := true }

/-- The way to choose that takes the first of all. -/
def takeFirst : Chooser Unit := ⟨fun _ h s => (⟨0, h⟩, s)⟩

/-! ## A search makes nothing worse -/

section

variable {σ : Type} {b : Build Float} {o : SearchOptions} {ch : Chooser σ} {random : σ}

/-- A search ends where it has started or at a greater score. -/
theorem eq_or_below_search (h : ∀ a ∈ b.attempts o ch random, a.1.build.Comparable o a.2) :
    (b.search o ch random).build = b ∨ b.Below (b.search o ch random).build := by
  refine (List.mem_cons.mp (b.search_mem_visited o ch random)).imp_right fun hMem => ?_
  exact List.rel_of_pairwise_cons (SearchState.pairwise_visits h) hMem

/-- A search that can compare its scores never makes things worse. -/
theorem score_le_search (hStart : b.score.isFinite = true)
    (h : ∀ a ∈ b.attempts o ch random, a.1.build.Comparable o a.2) :
    b.score ≤ (b.search o ch random).build.score := by
  have hProper := proper_of_isFinite hStart
  rcases eq_or_below_search h with hSame | hBelow
  · rw [hSame]
    exact (le_iff_place hProper hProper).mpr le_rfl
  · have hEnd := proper_of_isFinite hBelow.right
    exact (le_iff_place hProper hEnd).mpr ((lt_iff_place hProper hEnd).mp hBelow.lt).le

end

/-- The heavier weapon is taken where power counts. -/
theorem score_le_search_rearming :
    (∀ a ∈ (lightlyArmed "威力").attempts rearming takeFirst (), a.1.build.Comparable rearming a.2) ∧
      (lightlyArmed "威力").score ≤ ((lightlyArmed "威力").search rearming takeFirst ()).build.score := by
  have h : ∀ a ∈ (lightlyArmed "威力").attempts rearming takeFirst (),
      a.1.build.Comparable rearming a.2 := by decide +kernel
  exact ⟨h, score_le_search (by decide +kernel) h⟩

/-- Against a score below zero, a gain is the greater the lower the other score is: a search that is to
keep the power low takes the weapon that raises it. -/
theorem search_lt_score_rearming :
    ofOptions shop .default (arming "0 - 威力" (.same [])) = .ok (lightlyArmed "0 - 威力") ∧
      (∀ a ∈ (lightlyArmed "0 - 威力").attempts rearming takeFirst (),
        ∀ x ∈ a.1.build.scored rearming a.2, x.score.isFinite = true) ∧
      ((lightlyArmed "0 - 威力").search rearming takeFirst ()).build.score <
        (lightlyArmed "0 - 威力").score :=
  ⟨rfl, by decide +kernel, by decide +kernel⟩

/-! ## A search makes progress -/

section

variable {σ : Type} {b : Build Float} {o : SearchOptions} {ch : Chooser σ} {random : σ}

/-- If everything that is scored has a score from zero on, every change raises the score, no outfit is
visited twice, and a search that is allowed as many rounds as there are outfits settles. -/
theorem search_progress
    (h : ∀ a ∈ b.attempts o ch random, ∀ x ∈ a.1.build.scored o a.2, IsPlain x.score) :
    (∀ a ∈ b.attempts o ch random, (a.1.step ch o a.2).log.length ≠ a.1.log.length →
        a.1.build.score < (a.1.step ch o a.2).build.score) ∧
      ((b.visited o ch random).map outfit).Nodup ∧ (b.formableOutfits o).Finite ∧
      ((b.formableOutfits o).ncard ≤ o.maxIterations →
        (b.search o ch random).log.getLast? =
          some (.settled (b.search o ch random).iterations)) := by
  have hScores : ∀ a ∈ b.attempts o ch random, a.1.build.Comparable o a.2 :=
    fun a ha => .of_isPlain (h a ha)
  have hFormable := b.formable_visited o ch random
  have hNodup : ((b.visited o ch random).map outfit).Nodup :=
    nodup_outfits hFormable (SearchState.pairwise_visits hScores)
  refine ⟨?_, hNodup, b.finite_formable o, ?_⟩
  · intro a ha hChanged
    exact (SearchState.below_step (hScores a ha) hChanged).lt
  · intro hMany
    have hFew := length_le_ncard hFormable hNodup
    rw [← b.length_log_searchEnd o ch random] at hFew
    obtain ⟨-, hSettled | ⟨-, hStopped⟩⟩ := b.search_spec o ch random
    · exact hSettled
    · omega

end

theorem setWeapon_lightlyArmed (target : String) :
    (lightlyArmed target).setWeapon .melee "剑" (some 5) (some 80) = .ok (heavilyArmed target, []) := rfl

theorem setWeapon_heavilyArmed (target : String) :
    (heavilyArmed target).setWeapon .melee "剑" (some 5) (some 80) = .ok (heavilyArmed target, []) := rfl

/-- One weapon is there or the other one. -/
theorem formable_rearming {target : String} {x : Build Float}
    (h : (lightlyArmed target).Formable rearming x) :
    x = lightlyArmed target ∨ x = heavilyArmed target := by
  induction h with
  | start => exact .inl rfl
  | equip _ hChoice => cases hChoice
  | @unequip _ _ c _ _ _ hm _ ih => rcases ih with rfl | rfl <;> cases c <;> cases hm
  | @setWeapon _ slot _ _ _ _ _ hCurrent hName hSet ih =>
    cases slot with
    | ranged | resonance => cases hName
    | melee =>
      cases List.mem_singleton.mp hName
      right
      rcases ih with rfl | rfl
      · cases hCurrent
        cases (setWeapon_lightlyArmed target).symm.trans hSet
        rfl
      · cases hCurrent
        cases (setWeapon_heavilyArmed target).symm.trans hSet
        rfl

theorem ncard_rearming (target : String) :
    ((lightlyArmed target).formableOutfits rearming).ncard ≤ 2 := by
  have hSubset : (lightlyArmed target).formableOutfits rearming ⊆
      {(lightlyArmed target).outfit, (heavilyArmed target).outfit} := by
    rintro l ⟨x, hx, rfl⟩
    exact (formable_rearming hx).imp (congrArg outfit) (congrArg outfit)
  calc ((lightlyArmed target).formableOutfits rearming).ncard
      ≤ ({(lightlyArmed target).outfit, (heavilyArmed target).outfit} : Set (Outfit Float)).ncard :=
        Set.ncard_le_ncard hSubset (Set.toFinite _)
    _ ≤ ({(heavilyArmed target).outfit} : Set (Outfit Float)).ncard + 1 := Set.ncard_insert_le _ _
    _ = 2 := by rw [Set.ncard_singleton]

/-- Two outfits are visited, and the second round changes nothing. -/
theorem search_progress_rearming :
    (∀ a ∈ (lightlyArmed "威力").attempts rearming takeFirst (),
        ∀ x ∈ a.1.build.scored rearming a.2, IsPlain x.score) ∧
      ((lightlyArmed "威力").visited rearming takeFirst ()).length = 2 ∧
      (((lightlyArmed "威力").visited rearming takeFirst ()).map outfit).Nodup ∧
      ((lightlyArmed "威力").formableOutfits rearming).ncard ≤ rearming.maxIterations ∧
      ((lightlyArmed "威力").search rearming takeFirst ()).log.getLast? = some (.settled 2) := by
  have hPlain : ∀ a ∈ (lightlyArmed "威力").attempts rearming takeFirst (),
      ∀ x ∈ a.1.build.scored rearming a.2, IsPlain x.score := by decide +kernel
  have hMany : ((lightlyArmed "威力").formableOutfits rearming).ncard ≤ rearming.maxIterations :=
    (ncard_rearming "威力").trans (by decide)
  obtain ⟨-, hNodup, -, hSettles⟩ := search_progress hPlain
  have hIterations : ((lightlyArmed "威力").search rearming takeFirst ()).iterations = 2 := by
    decide +kernel
  rw [← hIterations]
  exact ⟨hPlain, by decide +kernel, hNodup, hMany, hSettles hMany⟩

end Build

end Loadout
