import Loadout.Proofs.Build.Sourced
import Loadout.Proofs.Search.Progress

/-!
# Categories that a search leaves alone

No move equips a mod in a category that is not searched or takes one out of it, but a weapon that is
replaced takes along the mods that do not fit afterwards, wherever they are. So what is left of such a
category are the mods that fit every build the search has visited, in their order.

* `get_trial`: what a move leaves of a category that is not searched;
* `get_search`: what a search leaves of it;
* `get_search_of_fixed`: everything, when no weapon may be replaced.
-/

namespace Loadout

theorem SearchOptions.not_mem_searched_of_preserved {o : SearchOptions} {c : ModCategory}
    (h : c ∈ o.preserved) : c ∉ o.searched := by
  intro hSearched
  have hLeft := (List.mem_filter.mp hSearched).2
  rw [List.contains_iff_mem.mpr h] at hLeft
  cases hLeft

namespace Build

/-! ## Builds that can be formed -/

section

variable {K : Type} [Number K] {b x : Build K} {o : SearchOptions} {d : Database K}

theorem Formable.wellFormed (h : Formable b o x) (hb : b.WellFormed) : x.WellFormed := by
  induction h with
  | start => exact hb
  | equip _ _ _ _ hEquip ih => exact ih.equip _ _ _ hEquip
  | unequip _ _ _ hTaken ih => exact ih.unequip? hTaken
  | setWeapon _ _ _ _ hSet ih => exact ih.setWeapon _ _ _ _ _ hSet

theorem Formable.builtOn (h : Formable b o x) (hd : d.Indexed) (hb : b.BuiltOn d) : x.BuiltOn d := by
  induction h with
  | start => exact hb
  | equip _ _ _ _ hEquip ih => exact ih.equip hd _ _ _ hEquip
  | unequip _ _ _ hTaken ih => exact ih.unequip? hTaken
  | setWeapon _ _ _ _ hSet ih => exact ih.setWeapon _ _ _ _ _ hSet

end

/-! ## Moves -/

section

variable {K : Type} {x y : Build K} {d : Database K} {c c' : ModCategory}

theorem exists_of_without? {id : Nat} {ms rest : List (Mod K)} (h : without? id ms = some rest) :
    ∃ m ∈ ms, m.id = id := by
  induction ms generalizing rest with
  | nil => cases h
  | cons m ms ih =>
    rw [without?] at h
    split at h
    · rename_i hId
      exact ⟨m, List.mem_cons_self, hId⟩
    · obtain ⟨rest', hRest, -⟩ := Option.map_eq_some_iff.mp h
      obtain ⟨n, hn, hId⟩ := ih hRest
      exact ⟨n, List.mem_cons_of_mem m hn, hId⟩

/-- To take out a mod of one category leaves the others alone. -/
theorem get_unequip? (hx : x.WellFormed) (hFrom : x.BuiltOn d) {m : Mod K} (hm : m ∈ x.mods.get c')
    (hc : c' ≠ c) (h : x.unequip? m.id = some y) : y.mods.get c = x.mods.get c := by
  obtain ⟨c'', rest, hRest, rfl⟩ := unequip?_eq_some h
  obtain ⟨n, hn, hId⟩ := exists_of_without? hRest
  have hEq : c'' = c' := hFrom.category_eq hx hn hm hId
  exact PerCategory.get_set_of_ne _ (hEq ▸ hc) _

theorem fits_unequip? {id : Nat} (h : x.unequip? id = some y) : y.fits = x.fits := by
  obtain ⟨c'', rest, -, rfl⟩ := unequip?_eq_some h
  rfl

/-- Every mod fits, so nothing is left out for that. -/
theorem filter_fits (hx : x.WellFormed) :
    (x.mods.get c).filter (fun m => x.fits m.record) = x.mods.get c :=
  List.filter_eq_self.mpr (hx.fits c)

variable [Number K] {o : SearchOptions}

theorem get_reduced (hx : x.WellFormed) (hFrom : x.BuiltOn d) {worst : Rated K}
    (hWorst : worst? (x.rated c') = some worst) (hc : c' ≠ c) :
    (x.reduced worst).mods.get c = x.mods.get c ∧ (x.reduced worst).fits = x.fits := by
  obtain ⟨hm, -⟩ := exists_of_worst? hWorst
  rw [reduced]
  cases hTaken : x.unequip? worst.mod.id with
  | none => exact ⟨rfl, rfl⟩
  | some y => exact ⟨get_unequip? hx hFrom hm hc hTaken, fits_unequip? hTaken⟩

theorem fits_equip (id : Nat) (rank : Option Nat) :
    Ensures (x.equip id rank) fun y => y.fits = x.fits := by
  intro y hEquip
  obtain ⟨r, m, -, -, -, rfl⟩ := ensures_equip x id rank y hEquip
  rfl

theorem get_equip {id : Nat} {rank : Option Nat} {r : ModRecord K} (hRecord : x.database.mod id = .ok r)
    (hc : r.category ≠ c) (h : x.equip id rank = .ok y) : y.mods.get c = x.mods.get c := by
  obtain ⟨r', m, hRecord', -, -, rfl⟩ := ensures_equip x id rank y h
  rw [hRecord] at hRecord'
  cases hRecord'
  exact PerCategory.get_set_of_ne _ hc _

/-- A weapon that is replaced takes along what does not fit afterwards. -/
theorem get_setWeapon (slot : WeaponSlot) (name : String) (refine level : Option Nat) :
    Ensures (x.setWeapon slot name refine level) fun changed =>
      changed.1.mods.get c = (x.mods.get c).filter fun n => changed.1.fits n.record := by
  intro changed hSet
  obtain ⟨w, -, ⟨-, rfl⟩ | ⟨-, rfl⟩⟩ := ensures_setWeapon x slot name refine level changed hSet
  · exact get_dropUnfit { x with melee := w } c
  · exact get_dropUnfit { x with ranged := w } c

/-- What a move leaves of a category that is not searched. -/
theorem get_trial (hx : x.WellFormed) (hFrom : x.BuiltOn d) (hc : c ∉ o.searched) {m : Move}
    (hm : m ∈ o.moves) {t : Trial K} (ht : t ∈ (x.offer o m).trials) :
    t.build.mods.get c = (x.mods.get c).filter fun n => t.build.fits n.record := by
  cases m with
  | category c' =>
    have hOther : c' ≠ c := by
      rintro rfl
      exact hc (mem_searched_of_mem_moves hm)
    obtain ⟨base, skip, -, ⟨choice, -, r, hExtend⟩, -, hBase⟩ := mem_trials_category ht
    obtain ⟨hRecord, hCategory, -, hEquip⟩ := extend?_eq_some hExtend
    have hFrame : base.mods.get c = x.mods.get c ∧ base.fits = x.fits := by
      rcases hBase with ⟨rfl, -⟩ | ⟨worst, hWorst, rfl, -⟩
      · exact ⟨rfl, rfl⟩
      · exact get_reduced hx hFrom hWorst hOther
    rw [get_equip hRecord (hCategory ▸ hOther) hEquip, fits_equip _ _ _ hEquip, hFrame.1, hFrame.2,
      filter_fits hx]
  | weapon slot =>
    obtain ⟨current, name, dropped, -, -, -, hSet, -, -⟩ := mem_trials_weapon ht
    exact get_setWeapon slot name _ _ _ hSet

end

/-! ## Searches -/

variable {K σ : Type} [Number K] {b : Build K} {d : Database K} {o : SearchOptions} {ch : Chooser σ}
  {random : σ} {c : ModCategory}

theorem get_foldl_step (hb : b.WellFormed) (hFrom : b.BuiltOn d) (hd : d.Indexed) (hc : c ∉ o.searched)
    {s : SearchState K σ} (h : b.Formable o s.build) {ms : List Move} (hMoves : ∀ m ∈ ms, m ∈ o.moves) :
    (ms.foldl (SearchState.step ch o) s).build.mods.get c =
      (s.build.mods.get c).filter fun n => (s.visits ch o ms).all fun x => x.fits n.record := by
  induction ms generalizing s with
  | nil => exact (List.filter_true _).symm
  | cons m rest ih =>
    have hRest : ∀ m ∈ rest, m ∈ o.moves := fun m hm => hMoves m (List.mem_cons_of_mem _ hm)
    rw [List.foldl_cons, SearchState.visits]
    by_cases hLog : (s.step ch o m).log.length = s.log.length
    · have hSame := SearchState.build_step_of_length_eq ch o hLog
      rw [if_pos hLog, ← hSame]
      exact ih (hSame ▸ h) hRest
    · obtain ⟨t, ht, -, hBuild, -⟩ := SearchState.step_of_length_ne ch o hLog
      have hm := hMoves m List.mem_cons_self
      have hAfter : b.Formable o (s.step ch o m).build := hBuild ▸ h.trial hm ht
      have hTrial := get_trial (h.wellFormed hb) (h.builtOn hd hFrom) hc hm ht
      rw [← hBuild] at hTrial
      rw [if_neg hLog, ih hAfter hRest, hTrial, List.filter_filter]
      simp only [List.all_cons, Bool.and_comm]

/-- A mod fits every build that a search visits. -/
def FitsThroughout (b : Build K) (o : SearchOptions) (ch : Chooser σ) (random : σ) (m : Mod K) : Bool :=
  (b.visited o ch random).all fun x => x.fits m.record

/-- Of a category that is not searched, a search leaves what fits throughout. -/
theorem get_search (hb : b.WellFormed) (hFrom : b.BuiltOn d) (hd : d.Indexed) (hc : c ∉ o.searched) :
    (b.search o ch random).build.mods.get c =
      (b.mods.get c).filter (b.FitsThroughout o ch random) := by
  calc (b.search o ch random).build.mods.get c
      = (b.searchEnd o ch random).build.mods.get c := by rw [(b.search_spec o ch random).1]
    _ = (b.mods.get c).filter fun n =>
          (SearchState.visits ch o ⟨b, [], random⟩ (b.searchMoves o ch random)).all
            fun x => x.fits n.record :=
        get_foldl_step hb hFrom hd hc .start fun m => b.mem_moves_of_mem_searchMoves o ch random
    _ = ((b.mods.get c).filter fun n => b.fits n.record).filter fun n =>
          (SearchState.visits ch o ⟨b, [], random⟩ (b.searchMoves o ch random)).all
            fun x => x.fits n.record := by rw [filter_fits hb]
    _ = (b.mods.get c).filter (b.FitsThroughout o ch random) := by
        rw [List.filter_filter]
        exact List.filter_congr fun n _ => Bool.and_comm _ _

theorem Formable.fits_of_fixed {x : Build K} (h : Formable b o x) (hMelee : o.fixedMelee = true)
    (hRanged : o.fixedRanged = true) : x.fits = b.fits := by
  induction h with
  | start => rfl
  | equip _ _ _ _ hEquip ih => exact (fits_equip _ _ _ hEquip).trans ih
  | unequip _ _ _ hTaken ih => exact (fits_unequip? hTaken).trans ih
  | setWeapon _ hFree =>
    rw [SearchOptions.moves, hMelee, hRanged] at hFree
    simp at hFree

/-- If no weapon may be replaced, a search leaves all of a category that is not searched. -/
theorem get_search_of_fixed (hb : b.WellFormed) (hFrom : b.BuiltOn d) (hd : d.Indexed)
    (hc : c ∉ o.searched) (hMelee : o.fixedMelee = true) (hRanged : o.fixedRanged = true) :
    (b.search o ch random).build.mods.get c = b.mods.get c := by
  rw [get_search hb hFrom hd hc, List.filter_eq_self]
  intro m hm
  rw [FitsThroughout, List.all_eq_true]
  intro x hx
  rw [(b.formable_visited o ch random x hx).fits_of_fixed hMelee hRanged]
  exact hb.fits c m hm

/-- Of a category that is to be preserved or is not searched for another reason, a search leaves what
fits every build it visits. So it leaves the category as it is just when no weapon that it comes by rules
out one of its mods. -/
theorem search_preserved (hd : d.Indexed) {settings : Settings K} {options : BuildOptions K}
    {start : Build K} (h : ofOptions d settings options = .ok start) (changes : List (Change K))
    (hb : start.runAll changes = b) (hc : c ∈ o.preserved ∨ c ∉ o.searched) :
    (b.search o ch random).build.mods.get c = (b.mods.get c).filter (b.FitsThroughout o ch random) ∧
      ((b.search o ch random).build.mods.get c = b.mods.get c ↔
        ∀ m ∈ b.mods.get c, ∀ x ∈ b.visited o ch random, x.fits m.record = true) := by
  subst hb
  have hWell := (ensures_ofOptions d settings options start h).runAll changes
  have hNot : c ∉ o.searched := hc.elim SearchOptions.not_mem_searched_of_preserved id
  have hLeft : ((start.runAll changes).search o ch random).build.mods.get c = _ :=
    get_search hWell (builtOn_runAll hd h changes) hd hNot
  refine ⟨hLeft, ?_⟩
  rw [hLeft, List.filter_eq_self]
  simp only [FitsThroughout, List.all_eq_true]

/-! ## A search that replaces a weapon -/

theorem indexed_shop : shop.Indexed := fun _ _ hr =>
  Database.key_eq_of_find?_index (Database.find?_of_mod_eq_ok hr)

/-- The options of a build with one melee mod. -/
def carrying (id : Nat) : BuildOptions Float := arming "威力" ⟨[], [⟨id, none⟩], [], []⟩

def carrier (m : Mod Float) : Build Float :=
  wielding (blade 2 "刀" "太刀") "威力" ⟨[], [m], [], []⟩

/-- A mod for the weapon at the start. -/
def agile : Mod Float := .make (exclusiveMod 4 "迅捷" (some "太刀")) none [] 10

/-- A mod for every melee weapon. -/
def tough : Mod Float := .make (exclusiveMod 5 "坚韧" none) none [] 10

/-- A mod that fits both weapons outlasts the first one. -/
theorem search_preserved_tough :
    shop.Indexed ∧ ofOptions shop .default (carrying 5) = .ok (carrier tough) ∧
      .melee ∈ rearming.preserved ∧
      ((carrier tough).search rearming takeFirst ()).build.melee.name = "剑" ∧
      ((carrier tough).search rearming takeFirst ()).build.mods.melee = [tough] := by
  have hStart : ofOptions shop .default (carrying 5) = .ok (carrier tough) := rfl
  have hPreserved : .melee ∈ rearming.preserved := by decide
  obtain ⟨-, hKept⟩ := search_preserved (c := .melee) indexed_shop hStart [] rfl (.inl hPreserved)
  exact ⟨indexed_shop, hStart, hPreserved, by decide +kernel, hKept.mpr (by decide +kernel)⟩

/-- A mod that fits only the first one goes with it, also from a category that is to be preserved. -/
theorem search_not_preserved_agile :
    ofOptions shop .default (carrying 4) = .ok (carrier agile) ∧ .melee ∈ rearming.preserved ∧
      (carrier agile).mods.melee = [agile] ∧
      ((carrier agile).search rearming takeFirst ()).build.mods.melee.length = 0 :=
  ⟨rfl, by decide, rfl, by decide +kernel⟩

end Build

end Loadout
