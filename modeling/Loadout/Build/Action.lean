import Loadout.Build.Basic

/-!
# Actions

An action is what a loadout is scored by: the attack of a weapon, a skill of a weapon, or a skill of
the character. Formulas, timelines and the loadout itself select an action by name.

`Build.lookupAction?` is the order in which a name is tried; a name that selects nothing leaves the
first skill of the character, or the melee weapon when there is no skill.
-/

namespace Loadout

inductive Action (K : Type)
  | weapon (w : Wielded K)
  | weaponSkill (w : Wielded K) (s : Skill K)
  | skill (s : Skill K)

namespace Action

variable {K : Type}

/-- The weapon of an action, if it has one. -/
def wielded? : Action K → Option (Wielded K)
  | weapon w => some w
  | weaponSkill w _ => some w
  | skill _ => none

/-- The skill of an action, if it has one. -/
def skill? : Action K → Option (Skill K)
  | weapon _ => none
  | weaponSkill _ s => some s
  | skill s => some s

/-- The sort of an action. -/
def kind : Action K → String
  | weapon _ => "weapon"
  | weaponSkill .. => "weapon_skill"
  | skill _ => "skill"

def name : Action K → String
  | weapon w => w.weapon.record.name
  | weaponSkill _ s => s.name
  | skill s => s.name

end Action

/-- The slot that the name of a kind of weapon stands for. Resonance weapons have a name in common. -/
def WeaponSlot.ofName? (name : String) : Option WeaponSlot :=
  if name == "同律" then some .resonance
  else (WeaponKind.ofName? name).map fun
    | .melee => .melee
    | .ranged => .ranged
    | .resonanceMelee | .resonanceRanged => .resonance

namespace Build

variable {K : Type} [Number K]

/-- The weapon in a slot, with the slot. -/
def wielded? (b : Build K) (slot : WeaponSlot) : Option (Wielded K) :=
  (b.weapon? slot).map fun w => ⟨slot, w⟩

/-- A skill of some weapon by name. -/
def weaponSkill? (b : Build K) (name : String) : Option (Action K) :=
  b.wielded.findSome? fun w =>
    (w.weapon.skills.find? (·.name == name)).map fun s => .weaponSkill w s

/-- The action of a name: a skill of the character, a weapon, a skill of a weapon, or the weapon of
a kind. -/
def lookupAction? (b : Build K) (name : String) : Option (Action K) :=
  match b.skills.find? (·.name == name) with
  | some s => some (.skill s)
  | none =>
    match b.wielded.find? (·.weapon.name == name) with
    | some w => some (.weapon w)
    | none =>
      match b.weaponSkill? name with
      | some a => some a
      | none => ((WeaponSlot.ofName? name).bind b.wielded?).map .weapon

/-- The action that is taken when none is selected. -/
def defaultAction (b : Build K) : Action K :=
  match b.skills.head? with
  | some s => .skill s
  | none => .weapon ⟨.melee, b.melee⟩

/-- The action of a name, or the default one when the name is empty or selects nothing. -/
def action (b : Build K) (name : String) : Action K :=
  if name.isEmpty then b.defaultAction else (b.lookupAction? name).getD b.defaultAction

/-- The action that the loadout is scored by. -/
def selectedAction (b : Build K) : Action K := b.action b.actionName

end Build

end Loadout
