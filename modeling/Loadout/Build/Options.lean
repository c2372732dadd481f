import Loadout.Enemy
import Loadout.Record.Mod
import Loadout.Timeline

/-!
# Options

All that is needed to put a loadout together, by names and ids. Everything has a default, and what
may be absent stands for the highest level, refinement or rank.
-/

namespace Loadout

/-- A mod at a rank, by default the highest. -/
structure ModChoice where
  id : Nat
  rank : Option Nat
deriving DecidableEq

/-- A buff at a level, by default its usual one. -/
structure BuffChoice where
  name : String
  level : Option Nat
deriving DecidableEq

/-- A monster at a level, or a dummy without a name, and what is different about it. -/
structure EnemyChoice (K : Type) where
  monster : Option String
  level : Nat
  resistance : Option K
  pool : Pool
  staggered : Bool
  vulnerable : Option String

structure BuildOptions (K : Type) where
  character : String
  characterLevel : Option Nat
  melee : String
  meleeRefine : Option Nat
  meleeLevel : Option Nat
  ranged : String
  rangedRefine : Option Nat
  rangedLevel : Option Nat
  /-- The level of the skills of the character and the rank of the resonance weapon. -/
  skillLevel : Option Nat
  mods : PerCategory (List ModChoice)
  aura : Option ModChoice
  buffs : List BuffChoice
  dynamicBuffs : List BuffChoice
  enemy : EnemyChoice K
  /-- The health of the character as a share. -/
  health : K
  /-- What resonance adds to attack, health, shield and defense. -/
  resonanceGain : K
  /-- The name of the action that is scored. -/
  action : String
  /-- The formula that is scored, by default that of the settings. -/
  target : Option String
  timeline : Option (Timeline K)

variable {K : Type} [Number K]

namespace ModChoice

def ofJson? (j : Json K) : Option ModChoice := do
  let m ← j.asRecord? ["id", "rank"]
  return {
    id := ← m.required "id" Json.asWord?
    rank := ← m.optional "rank" Json.asWord? }

def toJson (c : ModChoice) : Json K :=
  .obj [("id", .nat c.id), ("rank", .ofOption .nat c.rank)]

end ModChoice

namespace BuffChoice

def ofJson? (j : Json K) : Option BuffChoice := do
  let m ← j.asRecord? ["name", "level"]
  return {
    name := ← m.required "name" Json.asString?
    level := ← m.optional "level" Json.asWord? }

def toJson (c : BuffChoice) : Json K :=
  .obj [("name", .str c.name), ("level", .ofOption .nat c.level)]

end BuffChoice

namespace PerCategory

/-- Lists of mods by the ASCII names of the categories. -/
def ofJson? (j : Json K) : Option (PerCategory (List ModChoice)) := do
  let m ← j.asRecord? ["character", "melee", "ranged", "resonance"]
  let list := Json.asList? ModChoice.ofJson?
  return {
    character := ← m.withDefault "character" list []
    melee := ← m.withDefault "melee" list []
    ranged := ← m.withDefault "ranged" list []
    resonance := ← m.withDefault "resonance" list [] }

def toJson (p : PerCategory (List ModChoice)) : Json K := .obj [
  ("character", .ofList ModChoice.toJson p.character),
  ("melee", .ofList ModChoice.toJson p.melee),
  ("ranged", .ofList ModChoice.toJson p.ranged),
  ("resonance", .ofList ModChoice.toJson p.resonance)]

end PerCategory

namespace EnemyChoice

def default : EnemyChoice K where
  monster := none
  level := 80
  resistance := none
  pool := .health
  staggered := false
  vulnerable := none

def ofJson? (j : Json K) : Option (EnemyChoice K) := do
  let m ← j.asRecord? ["monster", "level", "resistance", "hp_type", "staggered", "vulnerable"]
  let d : EnemyChoice K := default
  return {
    monster := ← m.optional "monster" Json.asString?
    level := ← m.withDefault "level" Json.asWord? d.level
    resistance := ← m.optional "resistance" Json.asNumber?
    pool := ← m.withDefault "hp_type" Pool.ofJson? d.pool
    staggered := ← m.withDefault "staggered" Json.asBool? d.staggered
    vulnerable := ← m.optional "vulnerable" Json.asString? }

def toJson (e : EnemyChoice K) : Json K := .obj [
  ("monster", .ofOption .str e.monster),
  ("level", .nat e.level),
  ("resistance", .ofOption .ofNumber e.resistance),
  ("hp_type", .str e.pool.name),
  ("staggered", .bool e.staggered),
  ("vulnerable", .ofOption .str e.vulnerable)]

end EnemyChoice

namespace BuildOptions

def default : BuildOptions K where
  character := ""
  characterLevel := none
  melee := ""
  meleeRefine := none
  meleeLevel := none
  ranged := ""
  rangedRefine := none
  rangedLevel := none
  skillLevel := none
  mods := .same []
  aura := none
  buffs := []
  dynamicBuffs := []
  enemy := .default
  health := 1.0
  resonanceGain := 0.0
  action := ""
  target := none
  timeline := none

def names : List String :=
  ["character", "character_level", "melee", "melee_refine", "melee_level", "ranged",
    "ranged_refine", "ranged_level", "skill_level", "mods", "aura_mod", "buffs", "dynamic_buffs",
    "enemy", "hp_percent", "resonance_gain", "base_name", "target_function", "timeline"]

def ofJson? (j : Json K) : Option (BuildOptions K) := do
  let m ← j.asRecord? names
  let d : BuildOptions K := default
  return {
    character := ← m.withDefault "character" Json.asString? d.character
    characterLevel := ← m.optional "character_level" Json.asWord?
    melee := ← m.withDefault "melee" Json.asString? d.melee
    meleeRefine := ← m.optional "melee_refine" Json.asWord?
    meleeLevel := ← m.optional "melee_level" Json.asWord?
    ranged := ← m.withDefault "ranged" Json.asString? d.ranged
    rangedRefine := ← m.optional "ranged_refine" Json.asWord?
    rangedLevel := ← m.optional "ranged_level" Json.asWord?
    skillLevel := ← m.optional "skill_level" Json.asWord?
    mods := ← m.withDefault "mods" PerCategory.ofJson? d.mods
    aura := ← m.optional "aura_mod" ModChoice.ofJson?
    buffs := ← m.withDefault "buffs" (Json.asList? BuffChoice.ofJson?) d.buffs
    dynamicBuffs := ← m.withDefault "dynamic_buffs" (Json.asList? BuffChoice.ofJson?) d.dynamicBuffs
    enemy := ← m.withDefault "enemy" EnemyChoice.ofJson? d.enemy
    health := ← m.withDefault "hp_percent" Json.asNumber? d.health
    resonanceGain := ← m.withDefault "resonance_gain" Json.asNumber? d.resonanceGain
    action := ← m.withDefault "base_name" Json.asString? d.action
    target := ← m.optional "target_function" Json.asString?
    timeline := ← m.optional "timeline" Timeline.ofJson? }

/-- The options that a text spells out. -/
def ofText? (text : String) : Option (BuildOptions K) := (Json.parse? text).bind ofJson?

def toJson (o : BuildOptions K) : Json K := .obj [
  ("character", .str o.character),
  ("character_level", .ofOption .nat o.characterLevel),
  ("melee", .str o.melee),
  ("melee_refine", .ofOption .nat o.meleeRefine),
  ("melee_level", .ofOption .nat o.meleeLevel),
  ("ranged", .str o.ranged),
  ("ranged_refine", .ofOption .nat o.rangedRefine),
  ("ranged_level", .ofOption .nat o.rangedLevel),
  ("skill_level", .ofOption .nat o.skillLevel),
  ("mods", o.mods.toJson),
  ("aura_mod", .ofOption ModChoice.toJson o.aura),
  ("buffs", .ofList BuffChoice.toJson o.buffs),
  ("dynamic_buffs", .ofList BuffChoice.toJson o.dynamicBuffs),
  ("enemy", o.enemy.toJson),
  ("hp_percent", .ofNumber o.health),
  ("resonance_gain", .ofNumber o.resonanceGain),
  ("base_name", .str o.action),
  ("target_function", .ofOption .str o.target),
  ("timeline", .ofOption Timeline.toJson o.timeline)]

end BuildOptions

end Loadout
