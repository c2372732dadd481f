import Loadout.Build.Action
import Loadout.Damage.Hit
import Loadout.Formula.Eval

/-!
# The scene of a score

A scene holds all that a formula may ask about: a loadout, its attributes, the stats of its weapons
and the action. A name in a formula stands for the first of these that knows it:

* a quantity of the action: its damage, its hits, or a field of its skill;
* an attribute of the character or an extra;
* a stat of the weapon of the action, or of the weapon of the kind that begins the name.

A qualifier puts another action in place of the selected one.
-/

namespace Loadout

/-- A weapon with its stats. -/
structure Armed (K : Type) where
  wielded : Wielded K
  stats : WeaponStats K

structure Scene (K : Type) where
  build : Build K
  attributes : AttributeSet K
  armed : List (Armed K)
  action : Action K
  /-- The share that defense lets through, in place of that of the enemy. -/
  defense : Option K

/-- The damage of each hit of an attack, and the number of its hits. -/
structure Strike (K : Type) where
  damage : DamageGrid K
  hits : K

/-- The damage of all hits, counting one hit at least. -/
def Strike.total {K : Type} [Number K] (s : Strike K) (o : Outcome) : K :=
  s.damage.get o * Number.greatest s.hits 1.0

namespace Scene

variable {K : Type} [Number K]

/-- The scene of a loadout under attributes that may differ from the settled ones. The stats of the
weapons are the settled ones. -/
def ofSettlement (b : Build K) (settled : Settlement K) (s : AttributeSet K) : Scene K :=
  let sources := b.sources
  { build := b
    attributes := s
    armed := b.wielded.map fun w => ⟨w, sources.weaponStats settled.flags w.weapon⟩
    action := b.selectedAction
    defense := none }

/-- The stats of the weapon in the slot of another one. -/
def stats (c : Scene K) (w : Wielded K) : WeaponStats K :=
  match c.armed.find? (·.wielded.slot == w.slot) with
  | some a => a.stats
  | none => .zero

/-! ## Damage -/

/-- What the damage of a hit depends on. -/
def attack (c : Scene K) : Attack K :=
  let a := Attack.against c.attributes c.build.enemy c.build.character.level c.build.health
  { a with defense := c.defense.getD a.defense }

/-- The attack of a weapon, at its own multiplier. -/
def weaponStrike (c : Scene K) (w : Wielded K) : Strike K :=
  let stats := c.stats w
  ⟨c.attack.weaponDamage stats w.weapon.record.damageType stats.multiplier, 1.0⟩

/-- A damage field of the skill of a weapon, which is a multiplier for the attack of the weapon. -/
def weaponFieldStrike (c : Scene K) (w : Wielded K) (f : SkillField K) : Strike K :=
  ⟨c.attack.weaponDamage (c.stats w) w.weapon.record.damageType (f.scaled c.attributes), f.hitCount⟩

/-- A damage field of a skill of the character, which is a multiplier for an attribute. -/
def fieldStrike (c : Scene K) (f : SkillField K) : Strike K :=
  ⟨c.attack.skillDamage (f.scaled c.attributes * c.attributes.get (f.base.getD .attack)), f.hitCount⟩

/-- The strike of an action by a field of its skill, by default the first field about damage. -/
def strike (c : Scene K) (a : Action K) (field : Option (SkillField K)) : Strike K :=
  match a with
  | .weapon w => c.weaponStrike w
  | .weaponSkill w s =>
    match field.or s.primaryDamage? with
    | some f => c.weaponFieldStrike w f
    | none => c.weaponStrike w
  | .skill s =>
    match field.or s.primaryDamage? with
    | some f => c.fieldStrike f
    | none => ⟨.flat 0.0, 0.0⟩

/-- The damage of the selected action with all its hits. -/
def actionTotal (c : Scene K) (o : Outcome) : K := (c.strike c.action none).total o

/-! ## Names -/

/-- The damage of one hit of an action. -/
def damageName : String := "伤害"

/-- The number of hits of an action. -/
def hitsName : String := "段数"

/-- Costs, which are zero for an action without them. -/
def costNames : List String := ["神智消耗", "每秒神智消耗"]

/-- The stats of the weapon of a kind: of the first weapon of exactly this kind, else of the first
that counts as one. -/
def statsOfKind? (c : Scene K) (kind : WeaponKind) : Option (WeaponStats K) :=
  match c.armed.find? (·.wielded.weapon.kind == kind) with
  | some a => some a.stats
  | none => (c.armed.find? (·.wielded.weapon.kind.accepts kind)).map (·.stats)

/-- The value of a key of bonuses; zero when there is no weapon that has it. -/
def keyValue (c : Scene K) (a : Action K) : StatKey → K
  | .character a => c.attributes.get a
  | .weapon none stat =>
    match a.wielded? with
    | some w => (c.stats w).get stat
    | none => 0.0
  | .weapon (some kind) stat =>
    match c.statsOfKind? kind with
    | some stats => stats.get stat
    | none => 0.0

/-- The value of a field of the skill of an action, with all hits when it is about damage. -/
def fieldValue (c : Scene K) (a : Action K) (f : SkillField K) (o : Outcome) : K :=
  if f.isDamage then
    let s := c.strike a (some f)
    s.damage.get o * s.hits
  else f.scaled c.attributes

/-- The value of a name for an action. -/
def valueFor? (c : Scene K) (a : Action K) (name : String) (o : Outcome) : Option K :=
  if name == damageName then some ((c.strike a none).damage.get o)
  else if name == hitsName then some (c.strike a none).hits
  else
    match a.skill?.bind (·.field? name) with
    | some f => some (c.fieldValue a f o)
    | none =>
      if costNames.contains name then some 0.0
      else
        match c.attributes.named? name with
        | some x => some x
        | none => (StatKey.parse? name).map (c.keyValue a)

/-- The names of a formula in this scene. -/
def resolver (c : Scene K) : Formula.Resolver K := fun qualifier name o =>
  match qualifier with
  | none => c.valueFor? c.action name o
  | some q =>
    match c.build.lookupAction? q with
    | some a => c.valueFor? a name o
    | none => none

end Scene

namespace Build

variable {K : Type} [Number K]

/-- The scene with the settled attributes. -/
def scene (b : Build K) : Scene K :=
  let settled := b.settle
  .ofSettlement b settled settled.attributes

/-- The weapon of the selected action, by default the melee weapon. -/
def selectedWeapon (b : Build K) : Weapon K :=
  match b.selectedAction.wielded? with
  | some w => w.weapon
  | none => b.melee

/-- The stats of a weapon with the conditional mods settled. -/
def weaponStats (b : Build K) (w : Weapon K) : WeaponStats K :=
  b.sources.weaponStats b.settle.flags w

end Build

end Loadout
