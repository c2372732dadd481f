import Loadout.Attribute.Name
import Loadout.Number

/-!
# Weapon stats

The numbers of one weapon with all bonuses counted. The bonus for physical damage is part of attack
and has no number of its own.
-/

namespace Loadout

structure WeaponStats (K : Type) where
  attack : K
  critRate : K
  critDamage : K
  triggerRate : K
  attackSpeed : K
  multiShot : K
  reload : K
  magazine : K
  independentDamageIncrease : K
  bonusDamage : K
  damageIncrease : K
  triggerMultiplier : K
  multiplier : K

namespace WeaponStats

variable {K : Type} [Number K]

/-- The stats given by a function. -/
def ofFn (f : WeaponStat → K) : WeaponStats K where
  attack := f .attack
  critRate := f .critRate
  critDamage := f .critDamage
  triggerRate := f .triggerRate
  attackSpeed := f .attackSpeed
  multiShot := f .multiShot
  reload := f .reload
  magazine := f .magazine
  independentDamageIncrease := f .independentDamageIncrease
  bonusDamage := f .bonusDamage
  damageIncrease := f .damageIncrease
  triggerMultiplier := f .triggerMultiplier
  multiplier := f .multiplier

/-- Every stat at zero. -/
def zero : WeaponStats K := ofFn fun _ => 0.0

def get (w : WeaponStats K) : WeaponStat → K
  | .attack => w.attack
  | .critRate => w.critRate
  | .critDamage => w.critDamage
  | .triggerRate => w.triggerRate
  | .attackSpeed => w.attackSpeed
  | .multiShot => w.multiShot
  | .physical => 0.0
  | .triggerMultiplier => w.triggerMultiplier
  | .reload => w.reload
  | .magazine => w.magazine
  | .bonusDamage => w.bonusDamage
  | .damageIncrease => w.damageIncrease
  | .independentDamageIncrease => w.independentDamageIncrease
  | .multiplier => w.multiplier

end WeaponStats

end Loadout
