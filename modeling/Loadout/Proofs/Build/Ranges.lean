import Loadout.Proofs.Build.Outfit

/-!
# Weapons are at levels that exist

A weapon is loaded at the level and the refinement that are nearest to those asked for, and no change of a
build alters a weapon otherwise. So the weapons of every build are at a level and a refinement that there
are, and another weapon can be loaded at just these.

* `ensures_loadWeapon`: what is loaded;
* `inRange_runAll`: the weapons of every build are in range;
* `ensures_loadWeapon_of_inRange`: a weapon that is loaded at the level and the refinement of another one
  is at these.
-/

namespace Loadout

variable {K : Type}

/-- The level and the refinement of a weapon are among those that there are. -/
structure Weapon.InRange (w : Weapon K) : Prop where
  least_le : Level.least ≤ w.level
  le_greatest : w.level ≤ Level.greatest
  refine_le : w.refine ≤ Weapon.greatestRefine

namespace Build

/-- The weapons that can be replaced are in range. -/
structure InRange (b : Build K) : Prop where
  melee : b.melee.InRange
  ranged : b.ranged.InRange

variable [Number K] {b : Build K}

/-! ## Loading -/

/-- A weapon is loaded as it is recorded, at the level and the refinement nearest to the given ones. -/
theorem ensures_loadWeapon (d : Database K) (name : String) (refine level : Option Nat) :
    Ensures (loadWeapon d name refine level) fun w =>
      d.weapon name = .ok w.record ∧
        w.level = Level.clamp Level.least Level.greatest (level.getD Level.greatest) ∧
        w.refine = min (refine.getD Weapon.greatestRefine) Weapon.greatestRefine :=
  (ensures_eq _).bind fun _ hRecord => ensures_ok ⟨hRecord, rfl, rfl⟩

theorem ensures_loadWeapon_inRange (d : Database K) (name : String) (refine level : Option Nat) :
    Ensures (loadWeapon d name refine level) Weapon.InRange := by
  intro w hLoad
  obtain ⟨-, hLevel, hRefine⟩ := ensures_loadWeapon d name refine level w hLoad
  obtain ⟨hLow, hHigh⟩ := Level.clamp_mem Level.least_le_greatest (level.getD Level.greatest)
  exact ⟨hLevel ▸ hLow, hLevel ▸ hHigh, hRefine ▸ Nat.min_le_right _ _⟩

/-- A weapon can be loaded at the level and the refinement of one that is in range. -/
theorem ensures_loadWeapon_of_inRange {w : Weapon K} (h : w.InRange) (d : Database K) (name : String) :
    Ensures (loadWeapon d name (some w.refine) (some w.level)) fun v =>
      v.refine = w.refine ∧ v.level = w.level := by
  intro v hLoad
  obtain ⟨-, hLevel, hRefine⟩ := ensures_loadWeapon d name _ _ v hLoad
  rw [Option.getD_some, Level.clamp_of_mem h.least_le h.le_greatest] at hLevel
  rw [Option.getD_some, Nat.min_eq_left h.refine_le] at hRefine
  exact ⟨hRefine, hLevel⟩

/-! ## Changes -/

theorem InRange.setWeapon (h : b.InRange) (slot : WeaponSlot) (name : String)
    (refine level : Option Nat) :
    Ensures (b.setWeapon slot name refine level) fun changed => changed.1.InRange := by
  refine (ensures_loadWeapon_inRange b.database name refine level).bind fun w hw => ?_
  cases slot with
  | melee => exact ensures_ok { h with melee := hw }
  | ranged => exact ensures_ok { h with ranged := hw }
  | resonance => exact ensures_error _

/-- Whatever the change, the weapons stay in range. -/
theorem InRange.apply (h : b.InRange) (c : Change K) : Ensures (c.apply b) InRange := by
  cases c with
  | equip id rank =>
    intro b' hEquip
    obtain ⟨r, m, -, -, -, rfl⟩ := ensures_equip b id rank b' hEquip
    exact ⟨h.melee, h.ranged⟩
  | unequip id =>
    refine ensures_ok ?_
    cases hTaken : b.unequip? id with
    | none => exact h
    | some b' =>
      obtain ⟨c, rest, -, rfl⟩ := unequip?_eq_some hTaken
      exact ⟨h.melee, h.ranged⟩
  | setWeapon slot name refine level => exact (h.setWeapon slot name refine level).map
  | setAura choice =>
    cases choice with
    | none => exact ensures_ok ⟨h.melee, h.ranged⟩
    | some c =>
      exact (ensures_anything _).bind fun _ _ =>
        (ensures_anything _).bind fun m _ => ensures_ok ⟨h.melee, h.ranged⟩
  | addBuff name level =>
    refine (ensures_anything _).bind fun _ _ => (ensures_anything _).bind fun buff _ => ?_
    split
    · exact ensures_ok ⟨h.melee, h.ranged⟩
    · exact ensures_ok ⟨h.melee, h.ranged⟩
  | clear | dropUnfit | removeBuff | setCharacterLevel | setEnemy | setHealth | setActionName
  | setTarget | setTimeline => exact ensures_ok ⟨h.melee, h.ranged⟩

theorem ensures_bare_inRange (d : Database K) (settings : Settings K) (o : BuildOptions K) :
    Ensures (bare d settings o) InRange := by
  refine (ensures_anything _).bind fun record _ => ?_
  refine (ensures_loadWeapon_inRange d o.melee o.meleeRefine o.meleeLevel).bind fun melee hMelee => ?_
  refine (ensures_loadWeapon_inRange d o.ranged o.rangedRefine o.rangedLevel).bind
    fun ranged hRanged => ?_
  refine (ensures_anything _).bind fun resonance _ => ?_
  refine (ensures_anything _).bind fun enemy _ => ?_
  exact (ensures_anything _).bind fun _ _ => ensures_ok ⟨hMelee, hRanged⟩

/-- The weapons of a build from options are in range, whatever has been done to it since. -/
theorem inRange_runAll {d : Database K} {settings : Settings K} {o : BuildOptions K}
    (h : ofOptions d settings o = .ok b) (changes : List (Change K)) : (b.runAll changes).InRange := by
  have hApply (b : Build K) (c : Change K) (hb : b.InRange) : Ensures (c.apply b) InRange := hb.apply c
  have hStart := ensures_ofOptions_of_apply hApply (ensures_bare_inRange d settings o)
  exact runAll_of_apply hApply (hStart b h) changes

end Build

end Loadout
