import Loadout.Proofs.Search.Provenance
import Loadout.Proofs.Search.Ties

/-!
# A settled search has found a local optimum

The last round of a search that settles changes nothing, so all its moves looked at one and the same
build, and none of them found a gain that was enough. A move does not compare all its gains with what is
asked for but only one, which may be below the greatest by as much as gains may differ that count as
equal. That far may a gain exceed what was asked for and be passed over.

Gains are compared as exact numbers here: it is assumed of the gains of the last round that rounding does
not decide any comparison among them.

* `SearchState.best?_eq_none_of_length_eq`: a round that adds no line has found nothing in its build;
* `ComparesExactly.locallyOptimal`: a build in which no move finds anything is a local optimum;
* `search_locallyOptimal`: no single addition, swap or switch would gain more than that.
-/

namespace Loadout

open Number.Binary

/-! ## Rounds that find nothing -/

namespace SearchState

variable {K σ : Type} [Number K] {ch : Chooser σ} {o : SearchOptions}

/-- A move that adds no line has found nothing that is good enough. -/
theorem best?_eq_none_of_step {s : SearchState K σ} {m : Move}
    (h : (s.step ch o m).log.length = s.log.length) :
    ((s.build.offer o m).best? ch s.random).1 = none := by
  unfold step at h
  split at h
  · rw [List.length_append, List.length_singleton] at h
    omega
  · rename_i hNone
    rw [hNone]

/-- Moves that add no line have all looked at one build and found nothing in it. -/
theorem best?_eq_none_of_length_eq {s : SearchState K σ} {ms : List Move}
    (h : (ms.foldl (step ch o) s).log.length = s.log.length) :
    (ms.foldl (step ch o) s).build = s.build ∧
      ∀ m ∈ ms, ∃ random, ((s.build.offer o m).best? ch random).1 = none := by
  induction ms generalizing s with
  | nil => exact ⟨rfl, fun m hm => absurd hm List.not_mem_nil⟩
  | cons m rest ih =>
    have hFirst := length_log_foldl ch o s [m]
    have hRest := length_log_foldl ch o (s.step ch o m) rest
    rw [List.foldl_cons] at h hFirst ⊢
    rw [List.foldl_nil] at hFirst
    have hStep : (s.step ch o m).log.length = s.log.length := by omega
    have hBuild := build_step_of_length_eq ch o hStep
    obtain ⟨hEnd, hNone⟩ := ih (s := s.step ch o m) (by omega)
    rw [hBuild] at hEnd hNone
    refine ⟨hEnd, ?_⟩
    intro m' hm'
    rcases List.mem_cons.mp hm' with rfl | hm'
    · exact ⟨s.random, best?_eq_none_of_step hStep⟩
    · exact hNone m' hm'

/-- A run that has settled ends with moves that have found nothing in the build that it gives. -/
theorem best?_eq_none_of_run {s : SearchState K σ} {left iterations n : Nat}
    (h : (s.run ch o left iterations).log.getLast? = some (.settled n)) :
    ∀ m ∈ o.moves, ∃ random,
      (((s.run ch o left iterations).build.offer o m).best? ch random).1 = none := by
  induction left generalizing s iterations with
  | zero =>
    have hLast : (s.log ++ [SearchEvent.stopped iterations]).getLast? = some (.settled n) := h
    rw [List.getLast?_concat] at hLast
    cases hLast
  | succ left ih =>
    unfold run at h ⊢
    dsimp only at h ⊢
    by_cases hSettled : (s.round ch o).log.length = s.log.length
    · obtain ⟨hBuild, hNone⟩ := best?_eq_none_of_length_eq hSettled
      rw [if_pos hSettled]
      change ∀ m ∈ o.moves, ∃ random, (((s.round ch o).build.offer o m).best? ch random).1 = none
      rw [show (s.round ch o).build = s.build from hBuild]
      exact hNone
    · rw [if_neg hSettled] at h ⊢
      exact ih h

end SearchState

/-! ## What is offered -/

namespace Build

section

variable {K : Type} [Number K]

/-- What a mod adds to the build without it. -/
def income (b : Build K) (m : Mod K) : K := b.gainRemoving (.mod m.id (some m.rank))

/-- The build takes one more mod that the search may equip, and becomes another one. -/
def Takes (b : Build K) (o : SearchOptions) (r : ModRecord K) (extended : Build K) : Prop :=
  ∃ choice ∈ o.mods, b.database.mod choice.id = .ok r ∧
    b.equip choice.id choice.rank = .ok extended

variable {b y : Build K} {o : SearchOptions} {r : ModRecord K} {c : ModCategory}

/-- Whatever can be taken is among the extensions. -/
theorem Takes.mem_extensions (h : b.Takes o r y) (hCategory : r.category = c) {skip : Option Nat}
    (hSkip : some r.id ≠ skip) (event : String → K → SearchEvent K) :
    ∃ t ∈ b.extensions c skip o.mods event, t.gain = relativeGain b.score y.score := by
  obtain ⟨choice, hChoice, hRecord, hEquip⟩ := h
  have hExtend : b.extend? c skip choice = some (y, r) := by
    unfold extend?
    rw [hRecord]
    dsimp only
    rw [if_pos ⟨hCategory, hSkip⟩, hEquip]
  refine ⟨_, List.mem_map_of_mem (List.mem_filterMap.mpr ⟨choice, hChoice, hExtend⟩), rfl⟩

/-- Whatever other weapon of the list can be put into a slot is offered. -/
theorem mem_trials_of_setWeapon {slot : WeaponSlot} {current : Weapon K} {name : String}
    {changed : Build K × List String} (hCurrent : b.weapon? slot = some current)
    (hName : name ∈ o.weapons slot) (hOther : name ≠ current.name)
    (hSet : b.setWeapon slot name (some current.refine) (some current.level) = .ok changed) :
    ∃ t ∈ (b.offer o (.weapon slot)).trials, t.gain = relativeGain b.score changed.1.score := by
  have hSwitch : b.switch? slot current name = some changed := by
    unfold switch?
    rw [if_neg hOther, hSet]
  unfold offer weaponOffer
  dsimp only
  rw [hCurrent]
  exact ⟨_, List.mem_map_of_mem (List.mem_filterMap.mpr ⟨name, hName, hSwitch⟩), rfl⟩

omit [Number K] in
theorem without?_isSome {id : Nat} {ms : List (Mod K)} (h : ∃ m ∈ ms, m.id = id) :
    (without? id ms).isSome = true := by
  induction ms with
  | nil =>
    obtain ⟨m, hm, -⟩ := h
    cases hm
  | cons m rest ih =>
    rw [without?]
    split
    · rfl
    · rename_i hId
      obtain ⟨n, hn, hEq⟩ := h
      rw [Option.isSome_map]
      rcases List.mem_cons.mp hn with rfl | hn
      · exact absurd hEq hId
      · exact ih ⟨n, hn, hEq⟩

omit [Number K] in
/-- A mod that is equipped can be taken out. -/
theorem unequip?_isSome {m : Mod K} (h : m ∈ b.mods.get c) : (b.unequip? m.id).isSome = true := by
  unfold unequip?
  rw [List.findSome?_isSome_iff]
  refine ⟨c, c.mem_all, ?_⟩
  rw [Option.isSome_map]
  exact without?_isSome ⟨m, h, rfl⟩

end

section

variable {x : Build Float} {o : SearchOptions}

theorem place_foldl_worst_le (rest : List (Rated Float)) (r : Rated Float)
    (hFinite : ∀ r' ∈ r :: rest, r'.gain.isFinite = true) :
    ∀ r' ∈ r :: rest,
      place (rest.foldl (fun worst r => if Number.before r.gain worst.gain then r else worst) r).gain ≤
        place r'.gain := by
  induction rest generalizing r with
  | nil =>
    intro r' hr'
    rw [List.mem_singleton.mp hr']
    exact le_rfl
  | cons second rest ih =>
    obtain ⟨hFirst, hRest⟩ := List.forall_mem_cons.mp hFinite
    obtain ⟨hSecond, hRest'⟩ := List.forall_mem_cons.mp hRest
    rw [List.foldl_cons]
    split
    · rename_i hBefore
      have hRank : rank second.gain < rank r.gain := of_decide_eq_true hBefore
      have hLe := ih second hRest
      refine List.forall_mem_cons.mpr ⟨?_, hLe⟩
      exact (hLe second List.mem_cons_self).trans (place_le_of_rank_le hSecond hFirst hRank.le)
    · rename_i hBefore
      have hRank : ¬ rank second.gain < rank r.gain := fun h => hBefore (decide_eq_true h)
      obtain ⟨hSelf, hOthers⟩ :=
        List.forall_mem_cons.mp (ih r (List.forall_mem_cons.mpr ⟨hFirst, hRest'⟩))
      refine List.forall_mem_cons.mpr ⟨hSelf, List.forall_mem_cons.mpr ⟨?_, hOthers⟩⟩
      exact hSelf.trans (place_le_of_rank_le hFirst hSecond (not_lt.mp hRank))

/-- The worst one of some mods has the least gain. -/
theorem place_le_of_worst? {rs : List (Rated Float)} {worst : Rated Float} (h : worst? rs = some worst)
    (hFinite : ∀ r ∈ rs, r.gain.isFinite = true) : ∀ r ∈ rs, place worst.gain ≤ place r.gain := by
  cases rs with
  | nil => cases h
  | cons r rest =>
    cases h
    exact place_foldl_worst_le rest r hFinite

theorem exists_worst?_of_full {c : ModCategory} (h : c.cap ≤ (x.mods.get c).length) :
    ∃ worst, worst? (x.rated c) = some worst := by
  have hCap : 0 < c.cap := by cases c <;> decide
  unfold rated
  cases hMods : x.mods.get c with
  | nil =>
    rw [hMods, List.length_nil] at h
    omega
  | cons m rest => exact ⟨_, rfl⟩

/-! ## Local optima -/

/-- What a gain has to exceed, as an exact number. -/
def exactLeast (b : Build Float) : Move → ℚ
  | .category c =>
    if (b.mods.get c).length < c.cap then 0
    else match worst? (b.rated c) with
      | none => 0
      | some worst => place worst.gain + tolerance
  | .weapon _ => tolerance

/-- The gains of the moves that start from a build are finite, and rounding decides no comparison among
them. -/
structure ComparesExactly (x : Build Float) (o : SearchOptions) : Prop where
  offers : ∀ m ∈ o.moves, (x.offer o m).Exact (x.exactLeast m)
  incomes : ∀ c ∈ o.searched, ∀ m ∈ x.mods.get c, (x.income m).isFinite = true

/-- No move from the build gains more than the tolerance allows. -/
structure LocallyOptimal (x : Build Float) (o : SearchOptions) : Prop where
  /-- No mod that a category with room can take gains anything to speak of. -/
  fill : ∀ c ∈ o.searched, (x.mods.get c).length < c.cap → ∀ r y, x.Takes o r y → r.category = c →
    place (relativeGain x.score y.score) ≤ tolerance
  /-- If the worst mod of a full category is taken out, no other mod gains more than it does. -/
  swap : ∀ c ∈ o.searched, c.cap ≤ (x.mods.get c).length →
    ∃ w ∈ x.mods.get c, ∃ reduced, worst? (x.rated c) = some ⟨w, x.income w⟩ ∧
      (∀ m ∈ x.mods.get c, place (x.income w) ≤ place (x.income m)) ∧
      x.unequip? w.id = some reduced ∧
      ∀ r y, reduced.Takes o r y → r.category = c → r.id ≠ w.id →
        place (relativeGain reduced.score y.score) ≤ place (x.income w) + 2 * tolerance
  /-- No other weapon gains anything to speak of. -/
  switch : ∀ slot current name changed, Move.weapon slot ∈ o.moves → x.weapon? slot = some current →
    name ∈ o.weapons slot → name ≠ current.name →
    x.setWeapon slot name (some current.refine) (some current.level) = .ok changed →
    place (relativeGain x.score changed.1.score) ≤ 2 * tolerance

theorem mem_moves_of_mem_searched {c : ModCategory} (h : c ∈ o.searched) :
    Move.category c ∈ o.moves := by
  unfold SearchOptions.moves
  rw [List.append_assoc]
  exact List.mem_append_left _ (List.mem_map_of_mem h)

/-- A build in which no move finds anything is a local optimum. -/
theorem ComparesExactly.locallyOptimal {σ : Type} {ch : Chooser σ} (h : x.ComparesExactly o)
    (hNone : ∀ m ∈ o.moves, ∃ random, ((x.offer o m).best? ch random).1 = none) :
    x.LocallyOptimal o where
  fill c hc hRoom r y hTakes hCategory := by
    have hMove := mem_moves_of_mem_searched hc
    obtain ⟨random, hBest⟩ := hNone _ hMove
    have hOffer : x.offer o (.category c) = x.fillOffer c o.mods := if_pos hRoom
    have hLeast : x.exactLeast (.category c) = 0 := if_pos hRoom
    obtain ⟨t, ht, hGain⟩ := hTakes.mem_extensions hCategory (Option.some_ne_none _) (.add c)
    have hLe := (h.offers _ hMove).le_of_best?_eq_none hBest (t := t) (hOffer ▸ ht)
    rwa [hGain, hLeast, zero_add] at hLe
  swap c hc hFull := by
    have hMove := mem_moves_of_mem_searched hc
    have hRoom : ¬ (x.mods.get c).length < c.cap := not_lt.mpr hFull
    obtain ⟨random, hBest⟩ := hNone _ hMove
    obtain ⟨worst, hWorst⟩ := exists_worst?_of_full hFull
    obtain ⟨hMem, hIncome⟩ := exists_of_worst? hWorst
    obtain ⟨reduced, hReduced⟩ := Option.isSome_iff_exists.mp (unequip?_isSome hMem)
    have hRated : worst = ⟨worst.mod, x.income worst.mod⟩ := by
      rw [income, ← hIncome]
    refine ⟨worst.mod, hMem, reduced, hRated ▸ hWorst, ?_, hReduced, ?_⟩
    · intro m hm
      have hFinite : ∀ r ∈ x.rated c, r.gain.isFinite = true := by
        intro r hr
        obtain ⟨m, hm, rfl⟩ := List.mem_map.mp hr
        exact h.incomes c hc m hm
      have hLe := place_le_of_worst? hWorst hFinite _ (List.mem_map_of_mem hm)
      rwa [hIncome] at hLe
    · intro r y hTakes hCategory hOther
      have hOffer : x.offer o (.category c) = x.swapOffer c o.mods := if_neg hRoom
      have hLeast : x.exactLeast (.category c) = place (x.income worst.mod) + tolerance := by
        rw [exactLeast, if_neg hRoom, hWorst, income, ← hIncome]
      obtain ⟨t, ht, hGain⟩ := hTakes.mem_extensions hCategory
        (fun h => hOther (Option.some_inj.mp h)) (.swap c worst.mod.fullName worst.gain)
      have hOffered : t ∈ (x.offer o (.category c)).trials := by
        rw [hOffer, swapOffer, hWorst]
        dsimp only
        rw [hReduced]
        exact ht
      have hLe := (h.offers _ hMove).le_of_best?_eq_none hBest hOffered
      rwa [hGain, hLeast, add_assoc, ← two_mul] at hLe
  switch slot current name changed hMove hCurrent hName hOther hSet := by
    obtain ⟨random, hBest⟩ := hNone _ hMove
    obtain ⟨t, ht, hGain⟩ := mem_trials_of_setWeapon hCurrent hName hOther hSet
    have hLe := (h.offers _ hMove).le_of_best?_eq_none hBest ht
    rwa [hGain, exactLeast, ← two_mul] at hLe

/-- A search that settles has found a local optimum, if its last comparisons are exact. -/
theorem search_locallyOptimal {σ : Type} (b : Build Float) (o : SearchOptions) (ch : Chooser σ)
    (random : σ) {n : Nat} (h : (b.search o ch random).log.getLast? = some (.settled n))
    (hExact : (b.search o ch random).build.ComparesExactly o) :
    (b.search o ch random).build.LocallyOptimal o :=
  hExact.locallyOptimal (SearchState.best?_eq_none_of_run h)

end

/-! ## A search that swaps one mod for another -/

section

variable {x : Build Float} {o : SearchOptions}

instance {f : Offer Float} {least : ℚ} : Decidable (f.Exact least) :=
  decidable_of_iff
    ((∀ t ∈ f.trials, t.gain.isFinite = true) ∧
      (∀ t ∈ f.trials, ∀ t' ∈ f.trials,
        (Number.close t.gain t'.gain = true ↔ |place t.gain - place t'.gain| ≤ tolerance)) ∧
      ∀ t ∈ f.trials, (t.gain ≤ f.least ↔ place t.gain ≤ least))
    ⟨fun h => ⟨h.1, h.2.1, h.2.2⟩, fun h => ⟨h.1, h.2, h.3⟩⟩

instance : Decidable (x.ComparesExactly o) :=
  decidable_of_iff
    ((∀ m ∈ o.moves, (x.offer o m).Exact (x.exactLeast m)) ∧
      ∀ c ∈ o.searched, ∀ m ∈ x.mods.get c, (x.income m).isFinite = true)
    ⟨fun h => ⟨h.1, h.2⟩, fun h => ⟨h.1, h.2⟩⟩

end

/-- A mod of the resonance weapon that adds to the power. -/
def charm (id : Nat) (name : String) (amount : Float) : ModRecord Float :=
  { powerMod id name amount with category := .resonance }

/-- Two charms, and a melee mod that takes from the power. -/
def bazaar : Database Float :=
  { shop with
    mods := Database.index (·.id) [charm 11 "甲" 0.1, charm 12 "乙" 0.2, powerMod 13 "钝" (-0.2)] }

/-- A build with as many charms as there are slots. -/
def charmed : Build Float :=
  { lightlyArmed "威力" with
    database := bazaar
    mods := ⟨[], [], [], [charm 11 "甲" 0.1, charm 14 "丙" 0.3, charm 15 "丁" 0.4, charm 16 "戊" 0.5].map
      fun r => .make r none [] 10⟩ }

/-- A search for charms, melee mods and a melee weapon. -/
def outbidding : SearchOptions :=
  { SearchOptions.default with
    mods := [⟨11, none⟩, ⟨12, none⟩, ⟨13, none⟩]
    meleeWeapons := ["剑"]
    categories := [.melee, .resonance]
    fixedRanged := true }

/-- The weakest charm is swapped and the weapon replaced. After that the charm that was swapped out is
worth less than the one in its place, and the melee mod has room but makes things worse. -/
theorem search_locallyOptimal_charmed :
    (charmed.search outbidding takeFirst ()).log.getLast? = some (.settled 2) ∧
      (charmed.search outbidding takeFirst ()).build.ComparesExactly outbidding ∧
      (charmed.search outbidding takeFirst ()).build.mods.resonance.map Mod.id = [14, 15, 16, 12] ∧
      (charmed.search outbidding takeFirst ()).build.LocallyOptimal outbidding := by
  have h : (charmed.search outbidding takeFirst ()).log.getLast? = some (.settled 2) ∧
      (charmed.search outbidding takeFirst ()).build.ComparesExactly outbidding ∧
      (charmed.search outbidding takeFirst ()).build.mods.resonance.map Mod.id = [14, 15, 16, 12] := by
    decide +kernel
  exact ⟨h.1, h.2.1, h.2.2, search_locallyOptimal charmed outbidding takeFirst () h.1 h.2.1⟩

end Build

end Loadout
