import Loadout.Error
import Loadout.Record.Buff
import Loadout.Record.Character
import Loadout.Record.Mod
import Loadout.Record.Monster
import Loadout.Record.Weapon
import Loadout.Sorting

/-!
# The database

All records, by name, by id, or by both. A record replaces an earlier one with the same key; where
there are two tables of one kind of record, it does so in each of them on its own. An effect belongs
to the weapon or the mod of its name.
-/

namespace Loadout

structure Database (K : Type) where
  characters : Table String (CharacterRecord K)
  charactersById : Table Nat (CharacterRecord K)
  weapons : Table String (WeaponRecord K)
  weaponsById : Table Nat (WeaponRecord K)
  mods : Table Nat (ModRecord K)
  buffs : Table String (BuffRecord K)
  monsters : Table String (MonsterRecord K)
  effects : Table String (BuffRecord K)
  /-- Multipliers by kind of weapon and row. -/
  multipliers : Table String (Table String (BaseMultiplier K))

namespace Database

variable {K : Type}

/-! ## Look-up -/

/-- A record, or the error that names where and for what it was looked for. -/
def orNotFound {α : Type} (table : Lookup) (key : String) : Option α → Except BuildError α
  | some a => .ok a
  | none => .error (.notFound table key)

def character (d : Database K) (name : String) : Except BuildError (CharacterRecord K) :=
  orNotFound .character name (d.characters.find? name)

def characterById (d : Database K) (id : Nat) : Except BuildError (CharacterRecord K) :=
  orNotFound .character (toString id) (d.charactersById.find? id)

def weapon (d : Database K) (name : String) : Except BuildError (WeaponRecord K) :=
  orNotFound .weapon name (d.weapons.find? name)

def weaponById (d : Database K) (id : Nat) : Except BuildError (WeaponRecord K) :=
  orNotFound .weapon (toString id) (d.weaponsById.find? id)

def mod (d : Database K) (id : Nat) : Except BuildError (ModRecord K) :=
  orNotFound .mod (toString id) (d.mods.find? id)

def buff (d : Database K) (name : String) : Except BuildError (BuffRecord K) :=
  orNotFound .buff name (d.buffs.find? name)

def monster (d : Database K) (name : String) : Except BuildError (MonsterRecord K) :=
  orNotFound .monster name (d.monsters.find? name)

def effect? (d : Database K) (name : String) : Option (BuffRecord K) := d.effects.find? name

def multiplier? (d : Database K) (kind row : String) : Option (BaseMultiplier K) :=
  (d.multipliers.find? kind).bind (·.find? row)

/-- Every mod by id. -/
def allMods (d : Database K) : List (ModRecord K) := d.mods.values

/-- The weapons of one kind by id. -/
def weaponsOfKind (d : Database K) (kind : WeaponKind) : List (WeaponRecord K) :=
  sortBy (fun v w => v.id < w.id) (d.weapons.values.filter fun w => w.kind = kind)

/-! ## Loading -/

/-- The table of some records under a key of each. -/
def index {κ α : Type} [Key κ] (key : α → κ) (records : List α) : Table κ α :=
  records.foldl (fun t r => t.insert (key r) r) .empty

variable [Number K]

def names : List String :=
  ["characters", "weapons", "mods", "buffs", "monsters", "effects", "base_multipliers"]

/-- The table of multipliers. -/
def multipliersOfJson? (j : Json K) : Option (Table String (Table String (BaseMultiplier K))) :=
  (j.asMembers? fun row => (row.asMembers? BaseMultiplier.ofJson?).map .ofList).map .ofList

def ofJson? (j : Json K) : Option (Database K) := do
  let m ← j.asRecord? names
  let characters ← m.withDefault "characters" (Json.asList? CharacterRecord.ofJson?) []
  let weapons ← m.withDefault "weapons" (Json.asList? WeaponRecord.ofJson?) []
  let mods ← m.withDefault "mods" (Json.asList? ModRecord.ofJson?) []
  let buffs ← m.withDefault "buffs" (Json.asList? BuffRecord.ofJson?) []
  let monsters ← m.withDefault "monsters" (Json.asList? MonsterRecord.ofJson?) []
  let effects ← m.withDefault "effects" (Json.asList? BuffRecord.ofJson?) []
  let multipliers ← m.withDefault "base_multipliers" multipliersOfJson? .empty
  return {
    characters := index (·.name) characters
    charactersById := index (·.id) characters
    weapons := index (·.name) weapons
    weaponsById := index (·.id) weapons
    mods := index (·.id) mods
    buffs := index (·.name) buffs
    monsters := index (·.name) monsters
    effects := index (·.name) effects
    multipliers := multipliers }

/-- The database that a text spells out. -/
def ofText? (text : String) : Option (Database K) := (Json.parse? text).bind ofJson?

end Database

end Loadout
