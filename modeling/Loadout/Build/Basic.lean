import Loadout.Aggregate.Settlement
import Loadout.Build.Exclusion
import Loadout.Build.Options
import Loadout.Code
import Loadout.Database
import Loadout.Enemy
import Loadout.Equipment.Buff
import Loadout.Equipment.Character
import Loadout.Equipment.Mod
import Loadout.Equipment.Skill
import Loadout.Equipment.Weapon
import Loadout.Settings

/-!
# Builds

A build is one loadout: a character, the weapons, the mods of each category, an aura, buffs, an enemy
and what is to be scored. It is put together from options and changed piece by piece. A change that
cannot be made gives an error in place of a build, so there is no half-made change.

* `Build.equip`: when a mod can be equipped;
* `Build.dropUnfit`: what happens to mods when a weapon is replaced;
* `Build.ofOptions` and `Build.toOptions`: a build from its options, and the options of a build.
-/

namespace Loadout

/-- The places for weapons. The resonance weapon comes with the character. -/
inductive WeaponSlot
  | melee
  | ranged
  | resonance
deriving DecidableEq

/-- The name of a slot in the log of a search. -/
def WeaponSlot.label : WeaponSlot → String
  | melee => "Melee"
  | ranged => "Ranged"
  | resonance => "Resonance"

/-- A weapon and the slot it is in. -/
structure Wielded (K : Type) where
  slot : WeaponSlot
  weapon : Weapon K

structure Build (K : Type) where
  database : Database K
  settings : Settings K
  character : Character K
  skills : List (Skill K)
  melee : Weapon K
  ranged : Weapon K
  resonance : Option (Weapon K)
  mods : PerCategory (List (Mod K))
  aura : Option (Mod K)
  buffs : List (Buff K)
  dynamicBuffs : List (Buff K)
  enemy : Enemy K
  /-- The health of the character as a share. -/
  health : K
  resonanceGain : K
  /-- The name of the action that is scored. -/
  actionName : String
  /-- The formula that is scored. -/
  target : String
  timeline : Option (Timeline K)

namespace Build

variable {K : Type} [Number K]

/-! ## Weapons -/

def weapon? (b : Build K) : WeaponSlot → Option (Weapon K)
  | .melee => some b.melee
  | .ranged => some b.ranged
  | .resonance => b.resonance

/-- Every weapon with its slot. -/
def wielded (b : Build K) : List (Wielded K) :=
  [⟨.melee, b.melee⟩, ⟨.ranged, b.ranged⟩] ++ b.resonance.toList.map fun w => ⟨.resonance, w⟩

def weapons (b : Build K) : List (Weapon K) := b.wielded.map (·.weapon)

/-- A weapon by name, with its effect and its table of multipliers. -/
def loadWeapon (d : Database K) (name : String) (refine level : Option Nat) :
    Except BuildError (Weapon K) := do
  let record ← d.weapon name
  let table := record.baseMultiplier.bind fun row => d.multiplier? record.kind.name row
  return .ofRecord record (d.effect? name) table refine level

/-! ## Mods -/

/-- The weapons that a restriction of a mod may be met by. -/
def restrictingWeapons (b : Build K) : ModCategory → List (Weapon K)
  | .character => b.weapons
  | .melee => [b.melee]
  | .ranged => [b.ranged]
  | .resonance => b.resonance.toList

/-- Whether the element of the character and the class of a weapon are those that a mod needs. An
empty name asks for nothing. -/
def fits (b : Build K) (m : ModRecord K) : Bool :=
  let elementFits := match m.element with
    | some element => element.isEmpty || element == b.character.record.element
    | none => true
  let weaponFits := match m.restriction with
    | some category =>
      category.isEmpty || (b.restrictingWeapons m.category).any (·.record.category == category)
    | none => true
  elementFits && weaponFits

/-- What the mods of a category rule out. -/
def exclusion (b : Build K) (c : ModCategory) : Exclusion :=
  .ofMods ((b.mods.get c).map (·.record))

/-- Equips a mod behind those of its category. -/
def equip (b : Build K) (id : Nat) (rank : Option Nat) : Except BuildError (Build K) := do
  let record ← b.database.mod id
  let c := record.category
  let present := b.mods.get c
  if c.cap ≤ present.length then
    throw (.invalidData (.categoryFull c))
  if !(b.exclusion c).admits record then
    throw (.invalidData (.conflict record.fullName))
  if !b.fits record then
    throw (.invalidData (.misfit record.fullName b.character.record.name))
  let m ← Mod.ofRecord record (b.database.effect? record.name) rank
  return { b with mods := b.mods.set c (present ++ [m]) }

/-- A list without the first mod of an id, if there is one. -/
def without? (id : Nat) : List (Mod K) → Option (List (Mod K))
  | [] => none
  | m :: rest => if m.id = id then some rest else (without? id rest).map (m :: ·)

/-- Takes out the first mod of an id, if there is one. -/
def unequip? (b : Build K) (id : Nat) : Option (Build K) :=
  ModCategory.all.findSome? fun c =>
    (without? id (b.mods.get c)).map fun rest => { b with mods := b.mods.set c rest }

def clear (b : Build K) (c : ModCategory) : Build K := { b with mods := b.mods.set c [] }

/-- Takes out the mods that do not fit, and names them. -/
def dropUnfit (b : Build K) : Build K × List String :=
  ({ b with mods := b.mods.map fun ms => ms.filter fun m => b.fits m.record },
    ModCategory.all.flatMap fun c =>
      ((b.mods.get c).filter fun m => !b.fits m.record).map (·.fullName))

/-- Puts a mod beside the categories, where no rule applies to it, or nothing. -/
def setAura (b : Build K) (choice : Option ModChoice) : Except BuildError (Build K) :=
  match choice with
  | none => .ok { b with aura := none }
  | some c => do
    let record ← b.database.mod c.id
    let m ← Mod.ofRecord record (b.database.effect? record.name) c.rank
    return { b with aura := some m }

/-! ## Buffs -/

/-- Adds a buff to those that are dynamic or to those that are not. -/
def addBuff (b : Build K) (name : String) (level : Option Nat) : Except BuildError (Build K) := do
  let record ← b.database.buff name
  let buff ← Buff.ofRecord record level
  if buff.isDynamic then return { b with dynamicBuffs := b.dynamicBuffs ++ [buff] }
  else return { b with buffs := b.buffs ++ [buff] }

def hasBuff (b : Build K) (name : String) : Bool :=
  (b.buffs ++ b.dynamicBuffs).any (·.name == name)

/-- Takes out every buff of a name. -/
def removeBuff (b : Build K) (name : String) : Build K :=
  { b with
    buffs := b.buffs.filter (·.name != name)
    dynamicBuffs := b.dynamicBuffs.filter (·.name != name) }

/-! ## Other changes -/

/-- Replaces a weapon and takes out the mods that no longer fit, which are named. -/
def setWeapon (b : Build K) (slot : WeaponSlot) (name : String) (refine level : Option Nat) :
    Except BuildError (Build K × List String) := do
  let weapon ← loadWeapon b.database name refine level
  match slot with
  | .melee => return dropUnfit { b with melee := weapon }
  | .ranged => return dropUnfit { b with ranged := weapon }
  | .resonance => throw (.invalidData .boundWeapon)

def setCharacterLevel (b : Build K) (n : Nat) : Build K :=
  { b with character := b.character.setLevel n }

def setHealth (b : Build K) (health : K) : Build K :=
  { b with health := Number.clamp health 0.0 1.0 }

/-! ## Builds and options -/

def loadEnemy (d : Database K) (c : EnemyChoice K) : Except BuildError (Enemy K) := do
  let enemy ← match c.monster with
    | some name => (d.monster name).map fun r => Enemy.ofRecord r c.level
    | none => pure (Enemy.dummy c.level)
  return { enemy with
    resistance := c.resistance.getD enemy.resistance
    vulnerable := c.vulnerable.or enemy.vulnerable
    pool := c.pool
    staggered := c.staggered }

/-- Checks that every buff of a timeline is known. -/
def checkTimeline (d : Database K) (t : Timeline K) : Except BuildError Unit :=
  t.buffs.forM fun item => (d.buff item.name).map fun _ => ()

/-- The weapon that belongs to a character. -/
def loadResonance (d : Database K) (r : CharacterRecord K) (o : BuildOptions K) :
    Except BuildError (Option (Weapon K)) :=
  match r.resonanceWeapon with
  | none => .ok none
  | some name => do
    let weapon ← loadWeapon d name none o.characterLevel
    match o.skillLevel with
    | some level => return some (weapon.setSkillLevel level)
    | none => return some weapon

/-- A build without mods and buffs. -/
def bare (d : Database K) (settings : Settings K) (o : BuildOptions K) :
    Except BuildError (Build K) := do
  let record ← d.character o.character
  let melee ← loadWeapon d o.melee o.meleeRefine o.meleeLevel
  let ranged ← loadWeapon d o.ranged o.rangedRefine o.rangedLevel
  let resonance ← loadResonance d record o
  let enemy ← loadEnemy d o.enemy
  o.timeline.forM (checkTimeline d)
  return {
    database := d
    settings := settings
    character := .ofRecord record o.characterLevel
    skills := record.skills.map fun s => .ofRecord s o.skillLevel none
    melee := melee
    ranged := ranged
    resonance := resonance
    mods := .same []
    aura := none
    buffs := []
    dynamicBuffs := []
    enemy := enemy
    health := Number.clamp o.health 0.0 1.0
    resonanceGain := o.resonanceGain
    actionName := o.action
    target := o.target.getD settings.defaultTarget
    timeline := o.timeline }

/-- Equips mods one after another. -/
def equipAll (b : Build K) (choices : List ModChoice) : Except BuildError (Build K) :=
  choices.foldlM (fun b c => b.equip c.id c.rank) b

/-- Adds buffs one after another. -/
def addBuffs (b : Build K) (choices : List BuffChoice) : Except BuildError (Build K) :=
  choices.foldlM (fun b c => b.addBuff c.name c.level) b

/-- The build that options describe. -/
def ofOptions (d : Database K) (settings : Settings K) (o : BuildOptions K) :
    Except BuildError (Build K) := do
  let b ← bare d settings o
  let b ← b.equipAll (ModCategory.all.flatMap o.mods.get)
  let b ← match o.aura with
    | some choice => b.setAura (some choice)
    | none => pure b
  b.addBuffs (o.buffs ++ o.dynamicBuffs)

/-- The options that describe a build, with every level and rank written out. -/
def toOptions (b : Build K) : BuildOptions K where
  character := b.character.record.name
  characterLevel := some b.character.level
  melee := b.melee.name
  meleeRefine := some b.melee.refine
  meleeLevel := some b.melee.level
  ranged := b.ranged.name
  rangedRefine := some b.ranged.refine
  rangedLevel := some b.ranged.level
  skillLevel := b.skills.head?.map (·.level)
  mods := b.mods.map fun ms => ms.map fun m => ⟨m.id, some m.rank⟩
  aura := b.aura.map fun m => ⟨m.id, some m.rank⟩
  buffs := b.buffs.map fun f => ⟨f.name, some f.level⟩
  dynamicBuffs := b.dynamicBuffs.map fun f => ⟨f.name, some f.level⟩
  enemy := {
    monster := if b.enemy.name.isEmpty then none else some b.enemy.name
    level := b.enemy.level
    resistance := some b.enemy.resistance
    pool := b.enemy.pool
    staggered := b.enemy.staggered
    vulnerable := b.enemy.vulnerable }
  health := b.health
  resonanceGain := b.resonanceGain
  action := b.actionName
  target := some b.target
  timeline := b.timeline

/-! ## Builds and codes -/

def loadoutCode (b : Build K) : LoadoutCode where
  character := b.character.record.id
  melee := b.melee.record.id
  ranged := b.ranged.record.id
  mods := b.mods.map fun ms => ms.map (·.id)

/-- The code of a build. -/
def toCode (b : Build K) : Except BuildError String := b.loadoutCode.encode

/-- The build that a code describes, everything else at its default. -/
def ofCode (d : Database K) (text : String) : Except BuildError (Build K) := do
  let code ← LoadoutCode.decode text
  let options ← code.toOptions d
  ofOptions d .default options

/-! ## Aggregation -/

/-- The scope of the mods of a category. -/
def scope (b : Build K) : ModCategory → Scope
  | .character => .character
  | .melee => .weapon b.melee.kind
  | .ranged => .weapon b.ranged.kind
  | .resonance => .weapon (match b.resonance with
    | some w => w.kind
    | none => .resonanceMelee)

/-- What is equipped. -/
def equipment (b : Build K) : Equipment K where
  character := b.character
  weapons := b.weapons
  mods := b.mods
  scopes := ⟨b.scope .character, b.scope .melee, b.scope .ranged, b.scope .resonance⟩
  aura := b.aura
  buffs := b.buffs
  dynamicBuffs := b.dynamicBuffs
  resonanceGain := b.resonanceGain
  settings := b.settings

/-- The sources of all bonuses. -/
def sources (b : Build K) : Sources K := b.equipment.toSources

/-- The attributes with the conditional mods settled. -/
def settle (b : Build K) : Settlement K := b.sources.settle

end Build

end Loadout
