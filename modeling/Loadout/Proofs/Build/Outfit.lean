import Loadout.Proofs.Build.WellFormed

/-!
# Outfits

The weapons and the mods of a build are its outfit. To equip a mod, to take one out and to replace a
weapon changes nothing else, so two builds that such changes have made of one and the same build are the
same when their outfits are (`SameApart`).

* `ensures_equip`, `unequip?_eq_some`, `ensures_setWeapon`: what each of the changes does to the
  outfit.
-/

namespace Loadout

/-- The weapons and the mods of a build, the weapon that comes with the character apart. -/
structure Outfit (K : Type) where
  melee : Weapon K
  ranged : Weapon K
  mods : PerCategory (List (Mod K))

namespace Build

variable {K : Type}

def outfit (b : Build K) : Outfit K := ⟨b.melee, b.ranged, b.mods⟩

def withOutfit (b : Build K) (l : Outfit K) : Build K :=
  { b with melee := l.melee, ranged := l.ranged, mods := l.mods }

/-- One build has everything of another one but its outfit. -/
def SameApart (b x : Build K) : Prop := x = b.withOutfit x.outfit

theorem SameApart.refl (b : Build K) : b.SameApart b := rfl

/-- Another outfit makes no difference to what is apart from it. -/
theorem SameApart.withOutfit {b x : Build K} (h : b.SameApart x) (l : Outfit K) :
    b.SameApart (x.withOutfit l) := by
  rw [SameApart] at h
  rw [h]
  rfl

/-- The outfit tells builds apart that have been made of the same build. -/
theorem SameApart.eq_of_outfit_eq {b x y : Build K} (hx : b.SameApart x) (hy : b.SameApart y)
    (h : x.outfit = y.outfit) : x = y := by
  rw [SameApart] at hx hy
  rw [hx, hy, h]

theorem SameApart.database_eq {b x : Build K} (h : b.SameApart x) : x.database = b.database := by
  rw [SameApart] at h
  rw [h]
  rfl

variable {b b' : Build K}

/-- A mod is taken out of one category, where the others stay in their order. -/
theorem unequip?_eq_some {id : Nat} (h : b.unequip? id = some b') :
    ∃ c rest, without? id (b.mods.get c) = some rest ∧
      b' = b.withOutfit ⟨b.melee, b.ranged, b.mods.set c rest⟩ := by
  obtain ⟨c, -, hc⟩ := List.exists_of_findSome?_eq_some h
  obtain ⟨rest, hRest, rfl⟩ := Option.map_eq_some_iff.mp hc
  exact ⟨c, rest, hRest, rfl⟩

/-- What fits is kept, in its order. -/
theorem get_dropUnfit (b : Build K) (c : ModCategory) :
    b.dropUnfit.1.mods.get c = (b.mods.get c).filter fun m => b.fits m.record :=
  PerCategory.get_map _ b.mods c

theorem get_dropUnfit_sublist (b : Build K) (c : ModCategory) :
    (b.dropUnfit.1.mods.get c).Sublist (b.mods.get c) := by
  rw [get_dropUnfit]
  exact List.filter_sublist

variable [Number K]

/-- A mod that is equipped is known, its category had room, and it stands behind the others. -/
theorem ensures_equip (b : Build K) (id : Nat) (rank : Option Nat) :
    Ensures (b.equip id rank) fun b' => ∃ r m, b.database.mod id = .ok r ∧
      Mod.ofRecord r (b.database.effect? r.name) rank = .ok m ∧
      (b.mods.get r.category).length < r.category.cap ∧
      b' = b.withOutfit
        ⟨b.melee, b.ranged, b.mods.set r.category (b.mods.get r.category ++ [m])⟩ := by
  unfold equip
  refine (ensures_eq _).bind fun r hRecord => ?_
  dsimp only
  split
  · exact ensures_error _
  next hFull =>
  split
  · exact ensures_error _
  · split
    · exact ensures_error _
    · refine (ensures_eq _).bind fun m hMod => ensures_ok ?_
      exact ⟨r, m, hRecord, hMod, Nat.lt_of_not_le hFull, rfl⟩

/-- A weapon that is replaced takes the mods along that do not fit afterwards. -/
theorem ensures_setWeapon (b : Build K) (slot : WeaponSlot) (name : String)
    (refine level : Option Nat) :
    Ensures (b.setWeapon slot name refine level) fun changed =>
      ∃ w, loadWeapon b.database name refine level = .ok w ∧
        ((slot = .melee ∧ changed = dropUnfit { b with melee := w }) ∨
          (slot = .ranged ∧ changed = dropUnfit { b with ranged := w })) := by
  unfold setWeapon
  refine (ensures_eq _).bind fun w hWeapon => ?_
  cases slot with
  | melee => exact ensures_ok ⟨w, hWeapon, .inl ⟨rfl, rfl⟩⟩
  | ranged => exact ensures_ok ⟨w, hWeapon, .inr ⟨rfl, rfl⟩⟩
  | resonance => exact ensures_error _

end Build

end Loadout
