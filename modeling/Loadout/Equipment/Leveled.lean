import Loadout.Equipment.Buff
import Loadout.Equipment.Character
import Loadout.Equipment.Mod

/-!
# Levels that are set in place

What stands in a variable is given another level by one procedure, whatever it is: the number is put into
the range of its levels, the numbers at that level are worked out, and both are stored together. A weapon
has two more parameters. They are written first, and then the level is set to what it is, so that the
numbers are worked out again.

* `Leveled`: what the procedure has to know;
* `Leveled.setLevel`: the procedure;
* `Character.construct`, `Skill.construct`, `Weapon.construct`, `Mod.construct`, `Buff.construct`: what is
  new is written down as its record has it, and then its level is set;
* `Weapon.adjust`: the parameters of a weapon.
-/

namespace Loadout

/-- What has a level and keeps a snapshot of the numbers at it. -/
class Leveled (E : Type) (S : outParam Type) where
  level : E → Nat
  snapshot : E → S
  /-- The lowest level. -/
  least : E → Nat
  /-- The highest level. -/
  greatest : E → Nat
  /-- The numbers at a level. -/
  recompute : E → Nat → S
  store : E → Nat → S → E

/-- Sets the level to the one nearest to `n`. -/
def Leveled.setLevel {E S : Type} [Leveled E S] (e : E) (n : Nat) : E :=
  let level := Level.clamp (least e) (greatest e) n
  let snapshot := recompute e level
  store e level snapshot

variable {K : Type} [Number K]

/-! ## Characters -/

instance : Leveled (Character K) (CharacterStats K) where
  level c := c.level
  snapshot c := c.stats
  least _ := Level.least
  greatest _ := Level.greatest
  recompute c := Character.statsAt c.record
  store c level stats := { c with level := level, stats := stats }

def Character.construct (r : CharacterRecord K) (level : Option Nat) : Character K :=
  let c : Character K :=
    { record := r
      level := Level.greatest
      stats := ⟨r.attack, r.health, r.shield, r.defense, r.sanity⟩ }
  Leveled.setLevel c (level.getD Level.greatest)

/-! ## Skills -/

instance : Leveled (Skill K) (List (SkillField K)) where
  level s := s.level
  snapshot s := s.fields
  least _ := Skill.leastLevel
  greatest _ := Skill.greatestLevel
  recompute s level := s.record.fields.map fun f => SkillField.atLevel f level
  store s level fields := { s with level := level, fields := fields }

def Skill.construct (r : SkillRecord K) (level : Option Nat) (weapon : Option String) : Skill K :=
  let s : Skill K := { record := r, weapon := weapon, level := defaultLevel, fields := [] }
  Leveled.setLevel s (level.getD defaultLevel)

/-! ## Mods -/

instance : Leveled (Mod K) (ModStats K) where
  level m := m.rank
  snapshot m := m.stats
  least _ := 0
  greatest m := m.record.quality.maxRank
  recompute m := Mod.statsAt m.record m.effect
  store m rank stats := { m with rank := rank, stats := stats }

def Mod.construct (r : ModRecord K) (effect : Option (BuffRecord K)) (rank : Option Nat) :
    Except BuildError (Mod K) := do
  let conditions ← conditionsOf r
  let greatest := r.quality.maxRank
  let m : Mod K :=
    { record := r
      effect := effect
      conditions := conditions
      rank := greatest
      stats := ⟨r.bonuses, .empty, r.tolerance⟩ }
  return Leveled.setLevel m (rank.getD greatest)

/-! ## Buffs -/

instance : Leveled (Buff K) (Bonuses K) where
  level b := b.level
  snapshot b := b.bonuses
  least b := b.record.leastLevel
  greatest b := b.record.greatestLevel
  recompute b := Buff.bonusesAt b.record
  store b level bonuses := { b with level := level, bonuses := bonuses }

def Buff.construct (r : BuffRecord K) (level : Option Nat) : Except BuildError (Buff K) := do
  let script ← scriptOf r
  let b : Buff K := { record := r, script := script, level := r.usualLevel, bonuses := r.bonuses }
  return Leveled.setLevel b (level.getD r.usualLevel)

/-! ## Weapons -/

namespace Weapon

instance : Leveled (Weapon K) (WeaponBase K) where
  level w := w.level
  snapshot w := w.base
  least _ := Level.least
  greatest _ := Level.greatest
  recompute w level := baseAt w.record w.effect w.table level w.refine w.skillLevel
  store w level base := { w with level := level, base := base }

def construct (r : WeaponRecord K) (effect : Option (BuffRecord K)) (table : Option (BaseMultiplier K))
    (refine level : Option Nat) : Weapon K :=
  let w : Weapon K :=
    { record := r
      effect := effect
      table := table
      level := Level.greatest
      refine := min (refine.getD greatestRefine) greatestRefine
      skillLevel := Skill.defaultLevel
      skills := r.skills.map fun s => .construct s (some Skill.defaultLevel) (some r.name)
      base :=
        { attack := r.attack
          critRate := r.critRate
          critDamage := r.critDamage
          triggerRate := r.triggerRate
          multiplier := r.multiplier
          fireRate := r.fireRate
          magazine := r.magazine
          reload := r.reload
          bonuses := r.bonuses } }
  Leveled.setLevel w (level.getD Level.greatest)

/-- What can be set about a weapon. -/
inductive Adjustment
  | level (n : Nat)
  | refine (n : Nat)
  | skillLevel (n : Nat)

/-- Sets a parameter of a weapon to the value nearest to a number. -/
def adjust (w : Weapon K) : Adjustment → Weapon K
  | .level n => Leveled.setLevel w n
  | .refine n =>
    let w := { w with refine := min n greatestRefine }
    Leveled.setLevel w w.level
  | .skillLevel n =>
    let w := { w with skillLevel := Skill.clampLevel n }
    let w := { w with skills := w.skills.map fun s => Leveled.setLevel s w.skillLevel }
    Leveled.setLevel w w.level

end Weapon

end Loadout
