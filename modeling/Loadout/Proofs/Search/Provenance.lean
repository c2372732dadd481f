import Loadout.Proofs.Build.Ranges
import Loadout.Proofs.Search.Preserved

/-!
# Where the outfit of a result comes from

A search changes nothing but the outfit, and it takes every weapon and every mod from the start or from
its lists. It keeps an account of what it does: one line for every change, and one for the end.

* `Formable.within`: what can be formed stays within what a search may change;
* `build_ne_of_mem_trials`: everything that is offered differs from the present build, so a line stands
  for a change;
* `SearchState.log_foldl`: there are as many lines as there are changes;
* `search_within`: all of this for a whole search.
-/

namespace Loadout

/-- The line tells why a search ended. -/
def SearchEvent.isEnd {K : Type} : SearchEvent K → Bool
  | .stopped _ | .settled _ => true
  | .add .. | .swap .. | .switch .. => false

theorem SearchOptions.mem_moves_weapon {o : SearchOptions} {slot : WeaponSlot} :
    Move.weapon slot ∈ o.moves ↔
      slot = .melee ∧ o.fixedMelee = false ∨ slot = .ranged ∧ o.fixedRanged = false := by
  unfold moves
  cases o.fixedMelee <;> cases o.fixedRanged <;> simp

namespace Build

section

variable {K : Type} [Number K]

/-! ## What may come in -/

/-- A weapon that a search may put in the place of another one: it is named in a list, and it is as it
is loaded at the refinement and the level of the other one. -/
structure Listed (d : Database K) (names : List String) (w v : Weapon K) : Prop where
  name_mem : v.name ∈ names
  refine_eq : v.refine = w.refine
  level_eq : v.level = w.level
  loaded : loadWeapon d v.name (some w.refine) (some w.level) = .ok v

/-- A mod that a search may equip in a category: the category is searched, and the mod is one of the list,
at the rank that is asked for as far as there is such a rank, and else at the highest. -/
structure Enlisted (d : Database K) (o : SearchOptions) (c : ModCategory) (m : Mod K) : Prop where
  searched : c ∈ o.searched
  category_eq : m.category = c
  listed : ∃ choice ∈ o.mods, choice.id = m.id ∧ d.mod choice.id = .ok m.record ∧
    m.rank = min (choice.rank.getD m.record.quality.maxRank) m.record.quality.maxRank

/-- A build that a search may make of another one. -/
structure Within (b : Build K) (o : SearchOptions) (x : Build K) : Prop where
  sameApart : b.SameApart x
  melee : x.melee = b.melee ∨
    o.fixedMelee = false ∧ Listed b.database o.meleeWeapons b.melee x.melee
  ranged : x.ranged = b.ranged ∨
    o.fixedRanged = false ∧ Listed b.database o.rangedWeapons b.ranged x.ranged
  mods : ∀ c, ∀ m ∈ x.mods.get c, m ∈ b.mods.get c ∨ Enlisted b.database o c m
  wellFormed : x.WellFormed

variable {b x : Build K} {o : SearchOptions} {d : Database K}

/-- A weapon that is loaded for one of the slot is listed, whether that is the weapon of the start or was
listed itself. -/
theorem listed_of_loadWeapon (hNamed : d.Named) {p : Prop} {names : List String} {w v u : Weapon K}
    (hRange : w.InRange) (hOld : v = w ∨ p ∧ Listed d names w v) {name : String} (hName : name ∈ names)
    (h : loadWeapon d name (some v.refine) (some v.level) = .ok u) : Listed d names w u := by
  -- Every weapon of the slot has the refinement and the level of the first one.
  have hSame : v.refine = w.refine ∧ v.level = w.level := by
    rcases hOld with rfl | ⟨-, hOld⟩
    · exact ⟨rfl, rfl⟩
    · exact ⟨hOld.refine_eq, hOld.level_eq⟩
  rw [hSame.1, hSame.2] at h
  obtain ⟨hRecord, -, -⟩ := ensures_loadWeapon d name _ _ u h
  obtain ⟨hRefine, hLevel⟩ := ensures_loadWeapon_of_inRange hRange d name u h
  have hName' : u.name = name := hNamed name u.record hRecord
  exact ⟨hName' ▸ hName, hRefine, hLevel, hName' ▸ h⟩

theorem ensures_ofRecord_rank (r : ModRecord K) (effect : Option (BuffRecord K)) (rank : Option Nat) :
    Ensures (Mod.ofRecord r effect rank) fun m =>
      m.record = r ∧ m.rank = min (rank.getD r.quality.maxRank) r.quality.maxRank :=
  (ensures_anything _).bind fun _ _ => ensures_ok ⟨rfl, rfl⟩

/-- Whatever can be formed of a build that is well formed and in range is within what a search may make
of it. -/
theorem Formable.within (h : Formable b o x) (hIndexed : b.database.Indexed)
    (hNamed : b.database.Named) (hWell : b.WellFormed) (hRange : b.InRange) : b.Within o x := by
  induction h with
  | start => exact ⟨.refl b, .inl rfl, .inl rfl, fun _ _ hm => .inl hm, hWell⟩
  | @equip x y choice r hx hChoice hRecord hSearched hEquip ih =>
    have hFormable := hx.equip hChoice hRecord hSearched hEquip
    obtain ⟨r', m, hRecord', hMod, -, rfl⟩ := ensures_equip _ _ _ _ hEquip
    cases hRecord.symm.trans hRecord'
    refine ⟨hFormable.sameApart, ih.melee, ih.ranged, ?_, hFormable.wellFormed hWell⟩
    intro c n hn
    by_cases hc : r.category = c
    · subst hc
      change n ∈ (x.mods.set r.category _).get r.category at hn
      rw [PerCategory.get_set_self] at hn
      rcases List.mem_append.mp hn with hn | hn
      · exact ih.mods _ n hn
      · right
        rw [List.mem_singleton.mp hn]
        rw [hx.sameApart.database_eq] at hRecord
        obtain ⟨rfl, hRank⟩ := ensures_ofRecord_rank _ _ _ m hMod
        exact ⟨hSearched, rfl, choice, hChoice, (hIndexed _ _ hRecord).symm, hRecord, hRank⟩
    · change n ∈ (x.mods.set r.category _).get c at hn
      rw [PerCategory.get_set_of_ne _ hc] at hn
      exact ih.mods c n hn
  | unequip hx hSearched hMem hTaken ih =>
    have hFormable := hx.unequip hSearched hMem hTaken
    obtain ⟨c, rest, hRest, rfl⟩ := unequip?_eq_some hTaken
    refine ⟨hFormable.sameApart, ih.melee, ih.ranged, ?_, hFormable.wellFormed hWell⟩
    intro c' m hm
    exact ih.mods c' m ((get_set_sublist (sublist_of_without? hRest) c').subset hm)
  | @setWeapon x slot current name changed hx hFree hCurrent hName hSet ih =>
    have hFormable := hx.setWeapon hFree hCurrent hName hSet
    rw [SearchOptions.mem_moves_weapon] at hFree
    obtain ⟨w, hLoad, ⟨rfl, rfl⟩ | ⟨rfl, rfl⟩⟩ := ensures_setWeapon _ _ _ _ _ _ hSet
    · cases hCurrent
      rw [hx.sameApart.database_eq] at hLoad
      have hListed := listed_of_loadWeapon hNamed hRange.melee ih.melee hName hLoad
      refine ⟨hFormable.sameApart, .inr ⟨by simpa using hFree, hListed⟩, ih.ranged, ?_,
        hFormable.wellFormed hWell⟩
      intro c m hm
      exact ih.mods c m ((get_dropUnfit_sublist { x with melee := w } c).subset hm)
    · cases hCurrent
      rw [hx.sameApart.database_eq] at hLoad
      have hListed := listed_of_loadWeapon hNamed hRange.ranged ih.ranged hName hLoad
      refine ⟨hFormable.sameApart, ih.melee, .inr ⟨by simpa using hFree, hListed⟩, ?_,
        hFormable.wellFormed hWell⟩
      intro c m hm
      exact ih.mods c m ((get_dropUnfit_sublist { x with ranged := w } c).subset hm)

/-! ## Lines stand for changes -/

omit [Number K] in
theorem countP_of_without? {id : Nat} {ms rest : List (Mod K)} (h : without? id ms = some rest) :
    ms.countP (·.id = id) = rest.countP (·.id = id) + 1 := by
  induction ms generalizing rest with
  | nil => cases h
  | cons m ms ih =>
    rw [without?] at h
    split at h
    · rename_i hId
      cases h
      simp [hId]
    · rename_i hId
      obtain ⟨rest', hRest, rfl⟩ := Option.map_eq_some_iff.mp h
      simp [hId, ih hRest]

omit [Number K] in
/-- A mod that is swapped out leaves one mod of its id less behind. -/
theorem reduced_eq_or (x : Build K) (worst : Rated K) (c : ModCategory) :
    (x.reduced worst).mods.get c = x.mods.get c ∨
      (x.mods.get c).countP (·.id = worst.mod.id) =
        ((x.reduced worst).mods.get c).countP (·.id = worst.mod.id) + 1 := by
  unfold reduced
  cases hTaken : x.unequip? worst.mod.id with
  | none => exact .inl rfl
  | some y =>
    obtain ⟨c', rest, hRest, rfl⟩ := unequip?_eq_some hTaken
    by_cases hc : c' = c
    · subst hc
      right
      change _ = ((x.mods.set c' rest).get c').countP _ + 1
      rw [PerCategory.get_set_self]
      exact countP_of_without? hRest
    · exact .inl (PerCategory.get_set_of_ne _ hc _)

/-- A mod that is equipped stands behind those that were there. -/
theorem extend?_mods {c : ModCategory} {skip : Option Nat} {choice : ModChoice}
    {e : Build K × ModRecord K} (h : x.extend? c skip choice = some e) :
    ∃ m, e.1.mods.get c = x.mods.get c ++ [m] ∧ some m.id ≠ skip := by
  obtain ⟨hRecord, hCategory, hSkip, hEquip⟩ := extend?_eq_some h
  obtain ⟨r, m, hRecord', hMod, -, hBuild⟩ := ensures_equip _ _ _ _ hEquip
  cases hRecord.symm.trans hRecord'
  have hEq := ensures_ofRecord _ _ _ m hMod
  refine ⟨m, ?_, ?_⟩
  · rw [hBuild, ← hCategory]
    exact PerCategory.get_set_self _ _ _
  · rw [Mod.id, hEq]
    exact hSkip

/-- The weapon that has been loaded stands in the slot. -/
theorem exists_weapon_of_setWeapon {slot : WeaponSlot} {name : String} {refine level : Option Nat}
    {changed : Build K × List String} (h : x.setWeapon slot name refine level = .ok changed) :
    ∃ w, loadWeapon x.database name refine level = .ok w ∧ changed.1.weapon? slot = some w := by
  obtain ⟨w, hLoad, ⟨rfl, rfl⟩ | ⟨rfl, rfl⟩⟩ := ensures_setWeapon x _ _ _ _ changed h
  · exact ⟨w, hLoad, rfl⟩
  · exact ⟨w, hLoad, rfl⟩

/-- Everything that a move offers differs from the present build. -/
theorem build_ne_of_mem_trials (hNamed : x.database.Named) {m : Move} {t : Trial K}
    (ht : t ∈ (x.offer o m).trials) : t.build ≠ x := by
  intro hSame
  cases m with
  | category c =>
    simp only [offer, categoryOffer] at ht
    split at ht
    · obtain ⟨-, choice, -, r, hExtend⟩ := mem_extensions ht
      obtain ⟨m, hMods, -⟩ := extend?_mods hExtend
      change t.build.mods.get c = x.mods.get c ++ [m] at hMods
      have hLength := congrArg List.length hMods
      rw [hSame, List.length_append, List.length_singleton] at hLength
      omega
    · unfold swapOffer at ht
      split at ht
      · cases ht
      · rename_i worst hWorst
        obtain ⟨-, choice, -, r, hExtend⟩ := mem_extensions ht
        obtain ⟨m, hMods, hSkip⟩ := extend?_mods hExtend
        change t.build.mods.get c = (x.reduced worst).mods.get c ++ [m] at hMods
        rw [hSame] at hMods
        rcases x.reduced_eq_or worst c with hEq | hCount
        · have hLength := congrArg List.length hMods
          rw [hEq, List.length_append, List.length_singleton] at hLength
          omega
        · have hOther : m.id ≠ worst.mod.id := fun h => hSkip (congrArg some h)
          rw [hMods, List.countP_append, List.countP_singleton, if_neg (by simpa using hOther)] at hCount
          omega
  | weapon slot =>
    obtain ⟨current, name, dropped, hCurrent, -, hOther, hSet, -, -⟩ := mem_trials_weapon ht
    obtain ⟨w, hLoad, hWeapon⟩ := exists_weapon_of_setWeapon hSet
    rw [hSame, hCurrent] at hWeapon
    cases hWeapon
    exact hOther (hNamed name _ (ensures_loadWeapon _ _ _ _ _ hLoad).1).symm

/-- The line of something that is offered is not one that ends a search. -/
theorem isEnd_of_mem_trials {m : Move} {t : Trial K} (ht : t ∈ (x.offer o m).trials) :
    t.event.isEnd = false := by
  have hExtensions {b : Build K} {c : ModCategory} {skip : Option Nat} {choices : List ModChoice}
      {event : String → K → SearchEvent K} (hEvent : ∀ mod gain, (event mod gain).isEnd = false)
      (ht : t ∈ b.extensions c skip choices event) : t.event.isEnd = false := by
    obtain ⟨e, -, rfl⟩ := List.mem_map.mp ht
    exact hEvent _ _
  cases m with
  | category c =>
    simp only [offer, categoryOffer] at ht
    split at ht
    · exact hExtensions (fun _ _ => rfl) ht
    · unfold swapOffer at ht
      split at ht
      · cases ht
      · exact hExtensions (fun _ _ => rfl) ht
  | weapon slot =>
    simp only [offer, weaponOffer] at ht
    split at ht
    · cases ht
    · obtain ⟨changed, -, rfl⟩ := List.mem_map.mp ht
      rfl

end

end Build

/-! ## Searches -/

section

variable {K σ : Type} [Number K] (ch : Chooser σ) (o : SearchOptions)

namespace SearchState

/-- A run makes no more rounds than are left. -/
theorem iterations_run (s : SearchState K σ) (left iterations : Nat) :
    iterations ≤ (s.run ch o left iterations).iterations ∧
      (s.run ch o left iterations).iterations ≤ iterations + left := by
  induction left generalizing s iterations with
  | zero => exact ⟨Nat.le_refl _, Nat.le_refl _⟩
  | succ left ih =>
    unfold run
    dsimp only
    split
    · exact ⟨Nat.le_succ _, by change iterations + 1 ≤ _; omega⟩
    · obtain ⟨hLow, hHigh⟩ := ih (s.round ch o) (iterations + 1)
      exact ⟨by omega, by omega⟩

open Classical in
/-- The lines that moves add are as many as the builds that they change. -/
theorem log_foldl {b : Build K} (hNamed : b.database.Named) {s : SearchState K σ}
    (h : b.Formable o s.build) {ms : List Move} (hMoves : ∀ m ∈ ms, m ∈ o.moves) :
    ∃ lines, (ms.foldl (step ch o) s).log = s.log ++ lines ∧ (∀ e ∈ lines, e.isEnd = false) ∧
      lines.length = (s.attempts ch o ms).countP fun a => (a.1.step ch o a.2).build ≠ a.1.build := by
  induction ms generalizing s with
  | nil => exact ⟨[], (List.append_nil _).symm, fun e he => absurd he List.not_mem_nil, rfl⟩
  | cons m rest ih =>
    have hRest : ∀ m ∈ rest, m ∈ o.moves := fun m hm => hMoves m (List.mem_cons_of_mem _ hm)
    rw [List.foldl_cons, attempts, List.countP_cons]
    rcases s.step_cases ch o m with ⟨hBuild, hLog⟩ | ⟨t, ht, -, hBuild, hLog⟩
    · obtain ⟨lines, hLines, hChanges, hCount⟩ := ih (hBuild ▸ h) hRest
      refine ⟨lines, by rw [hLines, hLog], hChanges, ?_⟩
      rw [hCount, if_neg (by simp [hBuild])]
      rfl
    · have hAfter : b.Formable o (s.step ch o m).build :=
        hBuild ▸ h.trial (hMoves m List.mem_cons_self) ht
      obtain ⟨lines, hLines, hChanges, hCount⟩ := ih hAfter hRest
      have hNe : (s.step ch o m).build ≠ s.build :=
        hBuild ▸ Build.build_ne_of_mem_trials (h.sameApart.database_eq ▸ hNamed) ht
      refine ⟨t.event :: lines, by rw [hLines, hLog, List.append_assoc, List.singleton_append], ?_, ?_⟩
      · intro e he
        rcases List.mem_cons.mp he with rfl | he
        · exact Build.isEnd_of_mem_trials ht
        · exact hChanges e he
      · rw [List.length_cons, hCount, if_pos (by simpa using hNe)]

end SearchState

namespace Build

/-- A search adds its last line to those that its moves have added. -/
theorem log_search (b : Build K) (random : σ) :
    ∃ last, (b.search o ch random).log = (b.searchEnd o ch random).log ++ [last] ∧
      last.isEnd = true := by
  obtain ⟨n, final, hFinal, hIterations, -, hLog⟩ :=
    SearchState.run_spec ch o ⟨b, [], random⟩ o.maxIterations 0
  change (b.search o ch random).iterations = 0 + n at hIterations
  rw [Nat.zero_add] at hIterations hLog
  have hEnd : final = b.searchEnd o ch random := by
    rw [hFinal, searchEnd, searchMoves, hIterations]
  rw [← hEnd]
  rcases hLog with hSettled | ⟨hStopped, -⟩
  · exact ⟨_, hSettled, rfl⟩
  · exact ⟨_, hStopped, rfl⟩

open Classical in
/-- Whatever was done to a build before, a search stays within what it may change, makes no more rounds
than are allowed, and adds a line for every change and one that tells why it ended. -/
theorem search_within {d : Database K} (hIndexed : d.Indexed) (hNamed : d.Named) {settings : Settings K}
    {options : BuildOptions K} {start b : Build K} (h : ofOptions d settings options = .ok start)
    (changes : List (Change K)) (hb : start.runAll changes = b) (random : σ) :
    b.Within o (b.search o ch random).build ∧
      (b.search o ch random).iterations ≤ o.maxIterations ∧
      ∃ lines last, (b.search o ch random).log = lines ++ [last] ∧ last.isEnd = true ∧
        (∀ e ∈ lines, e.isEnd = false) ∧
        lines.length = (b.attempts o ch random).countP fun a =>
          (a.1.step ch o a.2).build ≠ a.1.build := by
  subst hb
  have hDatabase : (start.runAll changes).database = d := (builtOn_runAll hIndexed h changes).database_eq
  rw [← hDatabase] at hIndexed hNamed
  have hFormable := formable_visited _ o ch random _ (search_mem_visited (start.runAll changes) o ch random)
  have hMoves : ∀ m ∈ (start.runAll changes).searchMoves o ch random, m ∈ o.moves :=
    fun m => mem_moves_of_mem_searchMoves _ o ch random
  have hRounds : (_ : Nat) ≤ 0 + o.maxIterations :=
    (SearchState.iterations_run ch o ⟨start.runAll changes, [], random⟩ o.maxIterations 0).2
  rw [Nat.zero_add] at hRounds
  have hStart : (start.runAll changes).Formable o (SearchState.mk (start.runAll changes) [] random).build :=
    .start
  obtain ⟨lines, hLines, hChanges, hCount⟩ := SearchState.log_foldl ch o hNamed hStart hMoves
  obtain ⟨last, hLog, hEnd⟩ := log_search ch o (start.runAll changes) random
  refine ⟨?_, hRounds, lines, last, ?_, hEnd, hChanges, hCount⟩
  · exact hFormable.within hIndexed hNamed
      ((ensures_ofOptions d settings options start h).runAll changes) (inRange_runAll h changes)
  · rw [hLog, searchEnd, hLines, List.nil_append]

/-! ## A search for mods and a weapon -/

/-- A melee mod that adds to the power. -/
def powerMod (id : Nat) (name : String) (amount : Float) : ModRecord Float :=
  { exclusiveMod id name none with
    series := ""
    exclusive := false
    bonuses := Bonuses.empty.add (.character .power) amount }

/-- Two weapons and two mods that add to the power. -/
def market : Database Float :=
  { shop with mods := Database.index (·.id) [powerMod 6 "锐利" 0.2, powerMod 7 "沉重" 0.3] }

/-- A build without mods that is scored by its power. -/
def unfitted : Build Float := { lightlyArmed "威力" with database := market }

/-- A search for melee mods and a melee weapon. -/
def refitting : SearchOptions :=
  { SearchOptions.default with
    mods := [⟨6, some 3⟩, ⟨7, none⟩]
    meleeWeapons := ["剑"]
    categories := [.melee]
    fixedRanged := true }

theorem indexed_market : market.Indexed := fun _ _ hr =>
  Database.key_eq_of_find?_index (Database.find?_of_mod_eq_ok hr)

theorem named_market : market.Named := by
  have hWeapons : market.weapons = Database.index (·.name) [blade 2 "刀" "太刀", heavyBlade] := rfl
  intro name r hr
  have hFound := Database.eq_some_of_orNotFound hr
  rw [hWeapons] at hFound
  exact Database.key_eq_of_find?_index hFound

/-- One mod is added, then the weapon is replaced, then the other mod is added at the rank asked for. -/
theorem search_within_refitting :
    ofOptions market .default (arming "威力" (.same [])) = .ok unfitted ∧ market.Indexed ∧ market.Named ∧
      unfitted.Within refitting (unfitted.search refitting takeFirst ()).build ∧
      (unfitted.search refitting takeFirst ()).iterations = 3 ∧
      (unfitted.search refitting takeFirst ()).log.length = 4 ∧
      (unfitted.search refitting takeFirst ()).build.mods.melee.map (fun m => (m.id, m.rank)) =
        [(7, 10), (6, 3)] := by
  have hStart : ofOptions market .default (arming "威力" (.same [])) = .ok unfitted := rfl
  have hWithin := search_within takeFirst refitting indexed_market named_market hStart [] rfl ()
  exact ⟨hStart, indexed_market, named_market, hWithin.1, by decide +kernel⟩

end Build

end

end Loadout
