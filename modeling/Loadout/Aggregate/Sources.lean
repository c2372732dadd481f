import Loadout.Attribute.WeaponStats
import Loadout.DependencyGraph
import Loadout.Equipment.Buff
import Loadout.Equipment.Character
import Loadout.Equipment.Mod
import Loadout.Settings
import Loadout.Sorting

/-!
# Sources of bonuses

Every bonus has a source: the character, a weapon, a buff or a mod. A source has a scope. What is
scoped to a weapon reaches the character as well, except for attack and independent damage, which
then belong to the weapon.

For a choice of the conditional mods that are active, `Sources.pass` gives the attributes of the
character and `Sources.weaponStats` the stats of a weapon. Nothing else goes into them, so two passes
with the same choice give the same.
-/

namespace Loadout

/-- Where bonuses apply. -/
inductive Scope
  | character
  | weapon (kind : WeaponKind)
deriving DecidableEq

structure Source (K : Type) where
  scope : Scope
  bonuses : Bonuses K

/-- A mod with conditions, and what it grants while they hold. -/
structure Conditional (K : Type) where
  label : String
  mod : Mod K
  scope : Scope
  /-- The mods that are counted for conditions on polarities. -/
  siblings : List (Mod K)
  bonuses : Bonuses K

/-- All that attributes and weapon stats are computed from. -/
structure Sources (K : Type) where
  character : CharacterStats K
  sources : List (Source K)
  conditionals : List (Conditional K)
  dynamicBuffs : List (Buff K)
  resonanceGain : K
  settings : Settings K

/-- What is equipped: a character, weapons, mods by category with the scope of each category, an
aura, and buffs. -/
structure Equipment (K : Type) where
  character : Character K
  weapons : List (Weapon K)
  mods : PerCategory (List (Mod K))
  scopes : PerCategory Scope
  aura : Option (Mod K)
  buffs : List (Buff K)
  dynamicBuffs : List (Buff K)
  resonanceGain : K
  settings : Settings K

/-- Whether an attribute that is granted to a weapon belongs to the weapon alone. -/
def weaponOwned : Attribute → Bool
  | .attack | .independentDamageIncrease => true
  | _ => false

namespace Equipment

variable {K : Type} [Number K]

/-- The sources other than mods. -/
def plainSources (e : Equipment K) : List (Source K) :=
  let bonuses := e.character.record.bonuses :: e.weapons.map (·.base.bonuses) ++
    e.buffs.map (·.bonuses) ++ e.dynamicBuffs.map (·.bonuses)
  bonuses.map fun b => ⟨.character, b⟩

/-- How much mods of elemental series are strengthened. Mods themselves do not count. -/
def modAttribute (e : Equipment K) : K :=
  Number.sum (e.plainSources.map fun s => s.bonuses.character .modAttribute)

/-- The factor for the bonuses of a mod. -/
def modFactor (e : Equipment K) (m : Mod K) : K :=
  if e.settings.elementalSeries.contains m.record.series then 1.0 + e.modAttribute else 1.0

/-- A mod with the scope of its bonuses and the mods of its category. -/
structure Equipped (K : Type) where
  mod : Mod K
  scope : Scope
  siblings : List (Mod K)

/-- Every mod, the aura last. The aura counts the mods of the character. -/
def equipped (e : Equipment K) : List (Equipped K) :=
  (ModCategory.all.flatMap fun c =>
    (e.mods.get c).map fun m => ⟨m, e.scopes.get c, e.mods.get c⟩) ++
  e.aura.toList.map fun m => ⟨m, .character, e.mods.character⟩

/-- What a mod grants at all times. -/
def modSource (e : Equipment K) (m : Equipped K) : Source K :=
  ⟨m.scope, m.mod.stats.bonuses.scale (e.modFactor m.mod) []⟩

/-- What a mod grants under its conditions. -/
def modConditional (e : Equipment K) (m : Equipped K) : Conditional K where
  label := m.mod.fullName
  mod := m.mod
  scope := m.scope
  siblings := m.siblings
  bonuses := m.mod.stats.conditional.scale (e.modFactor m.mod) []

/-- Conditional mods are ordered by id, then by label. -/
def conditionalBefore (a b : Conditional K) : Bool :=
  a.mod.id < b.mod.id || (a.mod.id == b.mod.id && Key.before a.label b.label)

def toSources (e : Equipment K) : Sources K where
  character := e.character.stats
  sources := e.plainSources ++ e.equipped.map e.modSource
  conditionals := sortBy conditionalBefore
    ((e.equipped.filter (·.mod.isConditional)).map e.modConditional)
  dynamicBuffs := e.dynamicBuffs
  resonanceGain := e.resonanceGain
  settings := e.settings

end Equipment

namespace Sources

variable {K : Type} [Number K]

/-- The sources that count when the flagged conditionals are active. -/
def active (s : Sources K) (flags : List Bool) : List (Source K) :=
  s.sources ++ ((s.conditionals.zip flags).filter (·.2)).map fun c => ⟨c.1.scope, c.1.bonuses⟩

/-! ## Attributes of the character -/

/-- What a source grants to the attributes of the character. -/
def characterGrants (s : Source K) : List (Attribute × K) :=
  s.bonuses.entries.entries.filterMap fun
    | (.character a, x) =>
      if s.scope ≠ .character && weaponOwned a then none else some (a, x)
    | (.weapon .., _) => none

/-- The contributions to one attribute among some grants. -/
def contributions {κ : Type} [DecidableEq κ] (grants : List (κ × K)) (k : κ) : List K :=
  grants.filterMap fun g => if g.1 = k then some g.2 else none

/-- The total of the contributions to each attribute. -/
def totals (grants : List (Attribute × K)) (a : Attribute) : K :=
  a.stacking.total (contributions grants a)

/-- The extras of some sources, added up by name. -/
def extras (sources : List (Source K)) : Table String K :=
  sources.foldl (fun t s => s.bonuses.extra.entries.foldl (fun t e => Bonuses.addTo t e.1 e.2) t)
    .empty

/-- The attributes that follow from the totals of their bonuses and the stats of the character. -/
def finalize (s : Sources K) (total : Attribute → K) : AttributeSet K :=
  let c := s.character
  let gain := s.resonanceGain
  let plain (a : Attribute) : K := a.baseValue + total a
  .ofFn fun
    | .attack =>
      Number.roundTo (c.attack * (1.0 + total .attack + gain) * (1.0 + total .elementDamage)
        + total .flatAttack) 2
    | .health => Number.floor (c.health * (1.0 + total .health + gain))
    | .shield => Number.floor (c.shield * (1.0 + total .shield + gain))
    | .defense => Number.floor (c.defense * (1.0 + total .defense + gain))
    | .sanity => Number.floor (c.sanity * (1.0 + total .sanity))
    | .efficiency => Number.least (plain .efficiency) s.settings.efficiencyCap
    | .range => Number.least (plain .range) s.settings.rangeCap
    | a => plain a

/-- Runs the script of a dynamic buff. -/
def runBuff (s : AttributeSet K) (b : Buff K) : AttributeSet K :=
  match b.script with
  | some script => script.run b.level s
  | none => s

/-- The attributes when the flagged conditionals are active. -/
def pass (s : Sources K) (flags : List Bool) : AttributeSet K :=
  let sources := s.active flags
  let grants := sources.flatMap characterGrants
  let plain := s.finalize (totals grants)
  s.dynamicBuffs.foldl runBuff { plain with extra := extras sources }

/-! ## Stats of a weapon -/

/-- What a source grants to the stats of a weapon of a kind: stats scoped to a kind that the weapon
accepts, unscoped stats from the character or from the slot of the weapon, and from that slot also
what it owns of the attributes. -/
def weaponGrants (kind : WeaponKind) (s : Source K) : List (WeaponStat × K) :=
  let ownSlot : Bool := s.scope = .weapon kind
  s.bonuses.entries.entries.filterMap fun
    | (.weapon (some scope) stat, x) => if kind.accepts scope then some (stat, x) else none
    | (.weapon none stat, x) =>
      if s.scope = .character || ownSlot then some (stat, x) else none
    | (.character .attack, x) => if ownSlot then some (.attack, x) else none
    | (.character .independentDamageIncrease, x) =>
      if ownSlot then some (.independentDamageIncrease, x) else none
    | (.character _, _) => none

/-- The stats of a weapon with a total bonus for each of them. -/
def finalizeWeapon (s : Sources K) (w : WeaponBase K) (bonus : WeaponStat → K) : WeaponStats K where
  attack := Number.roundTo (w.attack * (1.0 + bonus .attack) * (1.0 + bonus .physical)) 2
  critRate := Number.roundTo (w.critRate * (1.0 + bonus .critRate)) 2
  critDamage := Number.roundTo (w.critDamage * (1.0 + bonus .critDamage)) 2
  triggerRate :=
    Number.roundTo
      (Number.least (w.triggerRate * (1.0 + bonus .triggerRate)) s.settings.triggerCap) 2
  attackSpeed := Number.roundTo (1.0 + bonus .attackSpeed) 2
  multiShot := Number.roundTo (1.0 + bonus .multiShot) 2
  reload := match w.reload with
    | some r => r / Number.greatest (1.0 + bonus .reload) 0.01
    | none => 0.0
  magazine := match w.magazine with
    | some m => Number.floor (m * (1.0 + bonus .magazine))
    | none => 0.0
  independentDamageIncrease := Number.roundTo (bonus .independentDamageIncrease) 3
  bonusDamage := bonus .bonusDamage
  damageIncrease := bonus .damageIncrease
  triggerMultiplier := bonus .triggerMultiplier
  multiplier := w.multiplier

/-- The stats of a weapon when the flagged conditionals are active. -/
def weaponStats (s : Sources K) (flags : List Bool) (w : Weapon K) : WeaponStats K :=
  let grants := (s.active flags).flatMap (weaponGrants w.kind)
  s.finalizeWeapon w.base fun stat => stat.stacking.total (contributions grants stat)

end Sources

end Loadout
