import Loadout.Proofs.Build.Ranges
import Loadout.Proofs.Search.Move
import Mathlib.Data.Set.Finite.Lattice
import Mathlib.Data.Set.Finite.List
import Mathlib.Data.Finite.Prod

/-!
# What a search can make of a build

A search takes mods out of the categories that it searches, equips the mods of its list there, and puts
the weapons of its lists into the slots that are not fixed. The builds that can be formed so from where
it starts are the builds it can come to.

* `Formable.trial`: what a move offers can be formed;
* `Formable.sameApart`: nothing but the outfit changes;
* `finite_formable`: there are finitely many outfits, since every mod and every weapon comes from the
  start or from the lists and no category grows beyond its slots.
-/

namespace Loadout.Build

variable {K : Type} [Number K]

/-- The builds that can be formed of a build with the mods and the weapons of a search. -/
inductive Formable (b : Build K) (o : SearchOptions) : Build K → Prop
  | start : Formable b o b
  | equip {x y : Build K} {choice : ModChoice} {r : ModRecord K} (formable : Formable b o x)
      (mem : choice ∈ o.mods) (record : x.database.mod choice.id = .ok r)
      (searched : r.category ∈ o.searched) (equip : x.equip choice.id choice.rank = .ok y) :
      Formable b o y
  | unequip {x y : Build K} {c : ModCategory} {m : Mod K} (formable : Formable b o x)
      (searched : c ∈ o.searched) (mem : m ∈ x.mods.get c) (unequip : x.unequip? m.id = some y) :
      Formable b o y
  | setWeapon {x : Build K} {slot : WeaponSlot} {current : Weapon K} {name : String}
      {changed : Build K × List String} (formable : Formable b o x)
      (free : Move.weapon slot ∈ o.moves) (current_eq : x.weapon? slot = some current)
      (mem : name ∈ o.weapons slot)
      (setWeapon : x.setWeapon slot name (some current.refine) (some current.level) = .ok changed) :
      Formable b o changed.1

variable {b x : Build K} {o : SearchOptions}

/-! ## Moves stay among what can be formed -/

theorem mem_searched_of_mem_moves {c : ModCategory} (h : Move.category c ∈ o.moves) :
    c ∈ o.searched := by
  unfold SearchOptions.moves at h
  simp only [List.append_assoc, List.mem_append] at h
  rcases h with h | h | h
  · obtain ⟨c', hc', hEq⟩ := List.mem_map.mp h
    cases hEq
    exact hc'
  · split at h
    · cases h
    · cases List.mem_singleton.mp h
  · split at h
    · cases h
    · cases List.mem_singleton.mp h

theorem Formable.reduced (h : Formable b o x) {c : ModCategory} (hc : c ∈ o.searched)
    {worst : Rated K} (hWorst : worst? (x.rated c) = some worst) :
    Formable b o (x.reduced worst) := by
  unfold Build.reduced
  cases hTaken : x.unequip? worst.mod.id with
  | none => exact h
  | some y => exact h.unequip hc (exists_of_worst? hWorst).1 hTaken

/-- What a move offers can be formed. -/
theorem Formable.trial (h : Formable b o x) {m : Move} (hm : m ∈ o.moves) {t : Trial K}
    (ht : t ∈ (x.offer o m).trials) : Formable b o t.build := by
  cases m with
  | category c =>
    have hc := mem_searched_of_mem_moves hm
    obtain ⟨base, skip, -, ⟨choice, hChoice, r, hExtend⟩, -, hBase⟩ := mem_trials_category ht
    obtain ⟨hRecord, hCategory, -, hEquip⟩ := extend?_eq_some hExtend
    have hFormable : Formable b o base := by
      rcases hBase with ⟨rfl, -⟩ | ⟨worst, hWorst, rfl, -⟩
      · exact h
      · exact h.reduced hc hWorst
    exact hFormable.equip hChoice hRecord (hCategory ▸ hc) hEquip
  | weapon slot =>
    obtain ⟨current, name, dropped, hCurrent, hName, -, hSet, -, -⟩ := mem_trials_weapon ht
    exact h.setWeapon hm hCurrent hName hSet

/-! ## Nothing but the outfit changes -/

omit [Number K] in
theorem SameApart.dropUnfit (h : b.SameApart x) : b.SameApart x.dropUnfit.1 :=
  h.withOutfit ⟨x.melee, x.ranged, x.dropUnfit.1.mods⟩

/-- A search leaves everything but the outfit as it is. -/
theorem Formable.sameApart (h : Formable b o x) : b.SameApart x := by
  induction h with
  | start => exact .refl b
  | equip _ _ _ _ hEquip ih =>
    obtain ⟨r, m, -, -, -, rfl⟩ := ensures_equip _ _ _ _ hEquip
    exact ih.withOutfit _
  | unequip _ _ _ hTaken ih =>
    obtain ⟨c, rest, -, rfl⟩ := unequip?_eq_some hTaken
    exact ih.withOutfit _
  | @setWeapon x slot current name changed _ _ _ _ hSet ih =>
    obtain ⟨w, -, ⟨-, rfl⟩ | ⟨-, rfl⟩⟩ := ensures_setWeapon _ _ _ _ _ _ hSet
    · exact (ih.withOutfit ⟨w, x.ranged, x.mods⟩).dropUnfit
    · exact (ih.withOutfit ⟨x.melee, w, x.mods⟩).dropUnfit

/-! ## Where mods and weapons come from -/

/-- The weapons that may come to be where one is: that one, or one of the lists at its refinement and
its level. -/
def weaponPool (b : Build K) (o : SearchOptions) (slot : WeaponSlot) (w : Weapon K) :
    Set (Weapon K) :=
  {v | v = w ∨ ∃ name ∈ o.weapons slot,
    loadWeapon b.database name (some w.refine) (some w.level) = .ok v}

/-- The mods that may come to be equipped: those of the start and those of the list. -/
def modPool (b : Build K) (o : SearchOptions) : Set (Mod K) :=
  {m | (∃ c, m ∈ b.mods.get c) ∨ ∃ choice ∈ o.mods, ∃ r, b.database.mod choice.id = .ok r ∧
    Mod.ofRecord r (b.database.effect? r.name) choice.rank = .ok m}

/-- An outfit of mods and weapons from the pools, with no more mods in a category than it has slots or
had at the start. -/
structure Pooled (b : Build K) (o : SearchOptions) (l : Outfit K) : Prop where
  melee : l.melee ∈ b.weaponPool o .melee b.melee
  ranged : l.ranged ∈ b.weaponPool o .ranged b.ranged
  mods : ∀ c, ∀ m ∈ l.mods.get c, m ∈ b.modPool o
  length_le : ∀ c : ModCategory, (l.mods.get c).length ≤ max c.cap (b.mods.get c).length

/-- A weapon has the refinement and the level at which it was loaded, as far as there are such. -/
theorem loadWeapon_of_loadWeapon {d : Database K} {name : String} {w v : Weapon K}
    (h : loadWeapon d name (some w.refine) (some w.level) = .ok v) (name' : String) :
    loadWeapon d name' (some v.refine) (some v.level) =
      loadWeapon d name' (some w.refine) (some w.level) := by
  obtain ⟨-, hLevel, hRefine⟩ := ensures_loadWeapon d name _ _ v h
  rw [Option.getD_some] at hLevel hRefine
  have hSame (r : WeaponRecord K) (effect : Option (BuffRecord K))
      (table : Option (BaseMultiplier K)) :
      Weapon.ofRecord r effect table (some v.refine) (some v.level) =
        Weapon.ofRecord r effect table (some w.refine) (some w.level) := by
    simp only [Weapon.ofRecord, Option.getD_some, Weapon.make, hLevel, hRefine,
      Level.clamp_clamp Level.least_le_greatest, Nat.min_assoc, Nat.min_self]
  unfold loadWeapon
  simp only [hSame]

/-- The pool is the same for every weapon in it. -/
theorem mem_weaponPool_of_load {slot : WeaponSlot} {w v u : Weapon K} {name : String}
    (hv : v ∈ b.weaponPool o slot w) (hName : name ∈ o.weapons slot)
    (h : loadWeapon b.database name (some v.refine) (some v.level) = .ok u) :
    u ∈ b.weaponPool o slot w := by
  rcases hv with rfl | ⟨name', -, hLoad⟩
  · exact .inr ⟨name, hName, h⟩
  · rw [loadWeapon_of_loadWeapon hLoad name] at h
    exact .inr ⟨name, hName, h⟩

theorem pooled_start (b : Build K) (o : SearchOptions) : b.Pooled o b.outfit where
  melee := .inl rfl
  ranged := .inl rfl
  mods _ _ hm := .inl ⟨_, hm⟩
  length_le _ := Nat.le_max_right _ _

/-- To take mods out keeps an outfit in its pools. -/
theorem Pooled.of_sublist {l : Outfit K} (h : b.Pooled o l) {mods : PerCategory (List (Mod K))}
    (hMods : ∀ c, (mods.get c).Sublist (l.mods.get c)) : b.Pooled o ⟨l.melee, l.ranged, mods⟩ where
  melee := h.melee
  ranged := h.ranged
  mods c m hm := h.mods c m ((hMods c).subset hm)
  length_le c := (hMods c).length_le.trans (h.length_le c)

theorem Pooled.append {l : Outfit K} (h : b.Pooled o l) {c : ModCategory} {m : Mod K}
    (hm : m ∈ b.modPool o) (hRoom : (l.mods.get c).length < c.cap) :
    b.Pooled o ⟨l.melee, l.ranged, l.mods.set c (l.mods.get c ++ [m])⟩ where
  melee := h.melee
  ranged := h.ranged
  mods d n hn := by
    by_cases hcd : c = d
    · subst hcd
      rw [PerCategory.get_set_self] at hn
      rcases List.mem_append.mp hn with hn | hn
      · exact h.mods c n hn
      · rw [List.mem_singleton.mp hn]
        exact hm
    · rw [PerCategory.get_set_of_ne _ hcd] at hn
      exact h.mods d n hn
  length_le d := by
    by_cases hcd : c = d
    · subst hcd
      rw [PerCategory.get_set_self, List.length_append, List.length_singleton]
      exact (Nat.succ_le_of_lt hRoom).trans (Nat.le_max_left _ _)
    · rw [PerCategory.get_set_of_ne _ hcd]
      exact h.length_le d

theorem Formable.pooled (h : Formable b o x) : b.Pooled o x.outfit := by
  induction h with
  | start => exact b.pooled_start o
  | @equip x y choice r hx hChoice _ _ hEquip ih =>
    obtain ⟨r', m, hRecord, hMod, hRoom, rfl⟩ := ensures_equip _ _ _ _ hEquip
    rw [hx.sameApart.database_eq] at hRecord hMod
    exact ih.append (.inr ⟨choice, hChoice, r', hRecord, hMod⟩) hRoom
  | unequip _ _ _ hTaken ih =>
    obtain ⟨c, rest, hRest, rfl⟩ := unequip?_eq_some hTaken
    exact ih.of_sublist (get_set_sublist (sublist_of_without? hRest))
  | @setWeapon x slot current name changed hx _ hCurrent hName hSet ih =>
    obtain ⟨w, hLoad, ⟨rfl, rfl⟩ | ⟨rfl, rfl⟩⟩ := ensures_setWeapon _ _ _ _ _ _ hSet
    · cases hCurrent
      rw [hx.sameApart.database_eq] at hLoad
      have hMelee : b.Pooled o ⟨w, x.ranged, x.mods⟩ :=
        { ih with melee := mem_weaponPool_of_load ih.melee hName hLoad }
      exact hMelee.of_sublist (get_dropUnfit_sublist _)
    · cases hCurrent
      rw [hx.sameApart.database_eq] at hLoad
      have hRanged : b.Pooled o ⟨x.melee, w, x.mods⟩ :=
        { ih with ranged := mem_weaponPool_of_load ih.ranged hName hLoad }
      exact hRanged.of_sublist (get_dropUnfit_sublist _)

/-! ## There are finitely many outfits -/

omit [Number K] in
theorem finite_ok {ε α : Type} (x : Except ε α) : {a | x = .ok a}.Finite := by
  apply Set.Subsingleton.finite
  intro a (ha : x = .ok a) a' (ha' : x = .ok a')
  rw [ha] at ha'
  cases ha'
  rfl

theorem finite_weaponPool (b : Build K) (o : SearchOptions) (slot : WeaponSlot) (w : Weapon K) :
    (b.weaponPool o slot w).Finite := by
  have hListed : (⋃ name ∈ {name | name ∈ o.weapons slot},
      {v | loadWeapon b.database name (some w.refine) (some w.level) = .ok v}).Finite :=
    (List.finite_toSet _).biUnion fun name _ => finite_ok _
  apply ((Set.finite_singleton w).union hListed).subset
  rintro v (rfl | ⟨name, hName, hLoad⟩)
  · exact .inl rfl
  · exact .inr (Set.mem_biUnion hName hLoad)

theorem finite_modPool (b : Build K) (o : SearchOptions) : (b.modPool o).Finite := by
  have hStart : (⋃ c ∈ {c | c ∈ ModCategory.all}, {m | m ∈ b.mods.get c}).Finite :=
    (List.finite_toSet _).biUnion fun c _ => List.finite_toSet _
  have hListed : (⋃ choice ∈ {choice | choice ∈ o.mods}, ⋃ r ∈ {r | b.database.mod choice.id = .ok r},
      {m | Mod.ofRecord r (b.database.effect? r.name) choice.rank = .ok m}).Finite :=
    (List.finite_toSet _).biUnion fun choice _ => (finite_ok _).biUnion fun r _ => finite_ok _
  apply (hStart.union hListed).subset
  rintro m (⟨c, hm⟩ | ⟨choice, hChoice, r, hRecord, hMod⟩)
  · exact .inl (Set.mem_biUnion c.mem_all hm)
  · exact .inr (Set.mem_biUnion hChoice (Set.mem_biUnion hRecord hMod))

omit [Number K] in
/-- There are finitely many lists of a bounded length over a finite pool. -/
theorem finite_lists {α : Type} {pool : Set α} (h : pool.Finite) (n : Nat) :
    {l : List α | l.length ≤ n ∧ ∀ a ∈ l, a ∈ pool}.Finite := by
  have := h.to_subtype
  apply ((List.finite_length_le pool n).image (List.map Subtype.val)).subset
  rintro l ⟨hLength, hPool⟩
  have hLength' : (l.attachWith _ hPool).length ≤ n := by
    rw [List.length_attachWith]
    exact hLength
  exact ⟨l.attachWith _ hPool, hLength', List.attachWith_map_subtype_val hPool⟩

/-- The outfits of the builds that can be formed. -/
def formableOutfits (b : Build K) (o : SearchOptions) : Set (Outfit K) :=
  {l | ∃ x, Formable b o x ∧ x.outfit = l}

theorem finite_formable (b : Build K) (o : SearchOptions) : (b.formableOutfits o).Finite := by
  have hLists (c : ModCategory) :=
    finite_lists (b.finite_modPool o) (max c.cap (b.mods.get c).length)
  have hWeapons := (b.finite_weaponPool o .melee b.melee).prod
    (b.finite_weaponPool o .ranged b.ranged)
  have hMods := ((hLists .character).prod (hLists .melee)).prod
    ((hLists .ranged).prod (hLists .resonance))
  apply ((hWeapons.prod hMods).image fun p =>
    ⟨p.1.1, p.1.2, ⟨p.2.1.1, p.2.1.2, p.2.2.1, p.2.2.2⟩⟩).subset
  rintro l ⟨x, hx, rfl⟩
  have h := hx.pooled
  have hList (c : ModCategory) := And.intro (h.length_le c) (h.mods c)
  exact ⟨((x.melee, x.ranged),
    ((x.mods.character, x.mods.melee), (x.mods.ranged, x.mods.resonance))),
    ⟨⟨h.melee, h.ranged⟩, ⟨hList .character, hList .melee⟩, hList .ranged, hList .resonance⟩, rfl⟩

end Loadout.Build
