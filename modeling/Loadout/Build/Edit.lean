import Loadout.Build.Basic

/-!
# Changes in place

A build that stands in a variable is changed by statements that are carried out one after another:
what is needed is looked up and checked, and the build is written to along the way. An error ends a
change where it occurs, and what had been written by then stays written.

* `Change`: the changes that can be made;
* `Change.apply`: the build that a change makes of a build;
* `Change.perform`: the statements that change a build in place;
* `Build.runAll`: the build after any number of changes, whether they succeed or not.
-/

namespace Loadout

/-- Statements on a build, of which the last gives a value unless one of them fails. -/
abbrev Edit (K α : Type) := EStateM BuildError (Build K) α

namespace Edit

variable {K α : Type}

/-- Fails where a value could not be had. -/
def ofExcept (x : Except BuildError α) : Edit K α :=
  match x with
  | .ok a => pure a
  | .error e => throw e

/-- The build that is left behind, by an error as well. -/
def after (x : Edit K α) (b : Build K) : Build K :=
  match x b with
  | .ok _ b' | .error _ b' => b'

def putMods (c : ModCategory) (ms : List (Mod K)) : Edit K Unit :=
  modify fun b => { b with mods := b.mods.set c ms }

/-- Takes out the first mod of an id in the first of some categories that has one, and tells whether
any of them has. -/
def unequipIn (id : Nat) : List ModCategory → Edit K Bool
  | [] => return false
  | c :: rest => do
    let b ← get
    match Build.without? id (b.mods.get c) with
    | some ms =>
      putMods c ms
      return true
    | none => unequipIn id rest

def unequip (id : Nat) : Edit K Bool := unequipIn id ModCategory.all

def clear (c : ModCategory) : Edit K Unit := putMods c []

variable [Number K]

/-! ## Mods -/

def equip (id : Nat) (rank : Option Nat) : Edit K Unit := do
  let b ← get
  let record ← ofExcept (b.database.mod id)
  let c := record.category
  let present := b.mods.get c
  if c.cap ≤ present.length then
    throw (.invalidData (.categoryFull c))
  if !(b.exclusion c).admits record then
    throw (.invalidData (.conflict record.fullName))
  if !b.fits record then
    throw (.invalidData (.misfit record.fullName b.character.record.name))
  let m ← ofExcept (Mod.ofRecord record (b.database.effect? record.name) rank)
  putMods c (present ++ [m])

/-- Takes out the mods of some categories that do not fit, and names them. The list of a category is
empty while its mods are looked at. -/
def dropUnfitIn : List ModCategory → Edit K (List String)
  | [] => return []
  | c :: rest => do
    let ms := (← get).mods.get c
    putMods c []
    let b ← get
    putMods c (ms.filter fun m => b.fits m.record)
    let names ← dropUnfitIn rest
    return (ms.filter fun m => !b.fits m.record).map (·.fullName) ++ names

def dropUnfit : Edit K (List String) := dropUnfitIn ModCategory.all

def setAura (choice : Option ModChoice) : Edit K Unit := do
  let b ← get
  let aura ← match choice with
    | some c =>
      let record ← ofExcept (b.database.mod c.id)
      let m ← ofExcept (Mod.ofRecord record (b.database.effect? record.name) c.rank)
      pure (some m)
    | none => pure none
  set { b with aura := aura }

/-! ## Buffs and weapons -/

def addBuff (name : String) (level : Option Nat) : Edit K Unit := do
  let b ← get
  let record ← ofExcept (b.database.buff name)
  let buff ← ofExcept (Buff.ofRecord record level)
  if buff.isDynamic then
    set { b with dynamicBuffs := b.dynamicBuffs ++ [buff] }
  else
    set { b with buffs := b.buffs ++ [buff] }

/-- Takes out every buff of a name, and tells whether there are fewer buffs than before. -/
def removeBuff (name : String) : Edit K Bool := do
  let b ← get
  let before := b.buffs.length + b.dynamicBuffs.length
  modify fun b => { b with buffs := b.buffs.filter (·.name != name) }
  modify fun b => { b with dynamicBuffs := b.dynamicBuffs.filter (·.name != name) }
  let b ← get
  return before != b.buffs.length + b.dynamicBuffs.length

/-- The weapon is in place when the mods are looked at. -/
def setWeapon (slot : WeaponSlot) (name : String) (refine level : Option Nat) :
    Edit K (List String) := do
  let b ← get
  let weapon ← ofExcept (Build.loadWeapon b.database name refine level)
  match slot with
  | .melee => set { b with melee := weapon }
  | .ranged => set { b with ranged := weapon }
  | .resonance => throw (.invalidData .boundWeapon)
  dropUnfit

end Edit

/-! ## All changes -/

inductive Change (K : Type)
  | equip (id : Nat) (rank : Option Nat)
  | unequip (id : Nat)
  | clear (category : ModCategory)
  | dropUnfit
  | setWeapon (slot : WeaponSlot) (name : String) (refine level : Option Nat)
  | setAura (choice : Option ModChoice)
  | addBuff (name : String) (level : Option Nat)
  | removeBuff (name : String)
  | setCharacterLevel (n : Nat)
  | setEnemy (enemy : Enemy K)
  | setHealth (health : K)
  | setActionName (name : String)
  | setTarget (formula : String)
  | setTimeline (timeline : Option (Timeline K))

variable {K : Type} [Number K]

/-- The build that a change makes of a build. -/
def Change.apply (b : Build K) : Change K → Except BuildError (Build K)
  | equip id rank => b.equip id rank
  | unequip id => .ok ((b.unequip? id).getD b)
  | clear c => .ok (b.clear c)
  | dropUnfit => .ok b.dropUnfit.1
  | setWeapon slot name refine level => (b.setWeapon slot name refine level).map Prod.fst
  | setAura choice => b.setAura choice
  | addBuff name level => b.addBuff name level
  | removeBuff name => .ok (b.removeBuff name)
  | setCharacterLevel n => .ok (b.setCharacterLevel n)
  | setEnemy enemy => .ok { b with enemy := enemy }
  | setHealth health => .ok (b.setHealth health)
  | setActionName name => .ok { b with actionName := name }
  | setTarget formula => .ok { b with target := formula }
  | setTimeline timeline => .ok { b with timeline := timeline }

/-- Carries out a change in place. -/
def Change.perform : Change K → Edit K Unit
  | equip id rank => Edit.equip id rank
  | unequip id => discard (Edit.unequip id)
  | clear c => Edit.clear c
  | dropUnfit => discard Edit.dropUnfit
  | setWeapon slot name refine level => discard (Edit.setWeapon slot name refine level)
  | setAura choice => Edit.setAura choice
  | addBuff name level => Edit.addBuff name level
  | removeBuff name => discard (Edit.removeBuff name)
  | setCharacterLevel n => modify (·.setCharacterLevel n)
  | setEnemy enemy => modify ({ · with enemy := enemy })
  | setHealth health => modify (·.setHealth health)
  | setActionName name => modify ({ · with actionName := name })
  | setTarget formula => modify ({ · with target := formula })
  | setTimeline timeline => modify ({ · with timeline := timeline })

/-- The build after some changes, each carried out on what the one before it left behind. -/
def Build.runAll (b : Build K) (changes : List (Change K)) : Build K :=
  changes.foldl (fun b c => c.perform.after b) b

end Loadout
