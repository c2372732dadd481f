import Loadout.Attribute.AttributeSet
import Loadout.Attribute.WeaponStats
import Loadout.Damage.Grid
import Loadout.Enemy

/-!
# The damage of one hit

Damage is a product: what the hit does by itself, the bonuses of the attacker, and what the enemy
lets through. A weapon hit also has a factor for critical hits and may set off a trigger; a skill
hit does neither.
-/

namespace Loadout

variable {K : Type} [Number K]

/-- The factors for critical hits. A rate above one makes its whole part of them certain and leaves
the rest to chance. -/
def critFactors (rate critDamage : K) : Spread K :=
  let rate := Number.greatest rate 0.0
  let extra := critDamage - 1.0
  ⟨1.0 + Number.floor rate * extra,
    1.0 + rate * extra,
    1.0 + Number.greatest (Number.ceil rate) 1.0 * extra⟩

/-- The factor for the attribute that grows with health, which is a share between zero and one. -/
def boostMultiplier (boost health : K) : K :=
  1.0 + boost * Number.clamp health 0.0 1.0

/-- The factor for the attribute that grows as health falls, down to a quarter of it. -/
def desperateMultiplier (desperate health : K) : K :=
  let h := Number.clamp health 0.25 1.0
  if desperate == 0.0 || h == 1.0 then 1.0
  else 1.0 + 4.0 * desperate * (1.0 - h) * (1.5 - h)

/-- All that damage depends on besides the hit itself. -/
structure Attack (K : Type) where
  attributes : AttributeSet K
  enemy : Enemy K
  /-- The health of the attacker as a share. -/
  health : K
  /-- The share that defense lets through. -/
  defense : K

namespace Attack

/-- An attack on the pool that damage is counted against. -/
def against (s : AttributeSet K) (e : Enemy K) (level : Nat) (health : K) : Attack K where
  attributes := s
  enemy := e
  health := health
  defense := e.mitigation level (s.get .ignoreDefense)

/-- The factors that weapon and skill hits share. -/
def commonFactor (a : Attack K) : K :=
  let s := a.attributes
  let imbalance := if a.enemy.staggered then 1.0 + s.get .imbalanceBonus else 1.0
  a.enemy.resistanceMultiplier (s.get .penetration)
    * boostMultiplier (s.get .boost) a.health
    * desperateMultiplier (s.get .desperate) a.health
    * imbalance
    * a.defense

/-- The factors of a weapon hit for all but critical hits and triggers. -/
def weaponFactor (a : Attack K) (w : WeaponStats K) : K :=
  let s := a.attributes
  a.commonFactor
    * (1.0 + s.get .damageIncrease + s.get .weaponDamage + w.damageIncrease)
    * (1.0 + s.get .independentDamageIncrease)
    * (1.0 + w.independentDamageIncrease)
    * (1.0 + w.bonusDamage)

/-- How much of a trigger counts: none, its rate, all of it; none at all when the enemy is not
affected. -/
def triggerShares (a : Attack K) (w : WeaponStats K) (damageType : String) : Spread K :=
  if a.enemy.acceptsTrigger damageType then ⟨0.0, w.triggerRate, 1.0⟩ else .same 0.0

/-- The damage of a weapon hit at a multiple of the attack of the weapon. -/
def weaponDamage (a : Attack K) (w : WeaponStats K) (damageType : String) (multiplier : K) :
    DamageGrid K :=
  let physical := multiplier * w.attack
  let elemental := multiplier * a.attributes.get .attack
  let factor := a.weaponFactor w
  let shares := a.triggerShares w damageType
  ⟨(critFactors w.critRate w.critDamage).map fun crit => shares.map fun share =>
    (physical * (1.0 + w.triggerMultiplier * share) + elemental) * crit * factor⟩

/-- The damage of a skill hit that does `base` by itself. -/
def skillDamage (a : Attack K) (base : K) : DamageGrid K :=
  let s := a.attributes
  .flat (base * a.commonFactor
    * (1.0 + s.get .damageIncrease + s.get .skillDamage)
    * (1.0 + s.get .independentDamageIncrease))

end Attack

end Loadout
