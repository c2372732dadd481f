import Loadout.Attribute.AttributeSet
import Loadout.Level
import Loadout.Record.Skill

/-!
# A skill at a level

The fields of a skill have their values at the level of the skill. What a field is good for is said
by its name: damage, cost, or cost that is paid every second.
-/

namespace Loadout

/-- Whether one text occurs within another. -/
def occursIn (part : List Char) : List Char → Bool
  | [] => part.isEmpty
  | c :: rest => part.isPrefixOf (c :: rest) || occursIn part rest

structure SkillField (K : Type) where
  name : String
  value : K
  hitCount : K
  affectedBy : List Attribute
  base : Option Attribute

namespace SkillField

variable {K : Type}

def isDamage (f : SkillField K) : Bool := occursIn "伤害".toList f.name.toList

def isCost (f : SkillField K) : Bool := occursIn "神智消耗".toList f.name.toList

def isSustainedCost (f : SkillField K) : Bool := occursIn "每秒神智消耗".toList f.name.toList

variable [Number K]

/-- The field at a level of its skill. -/
def atLevel (r : FieldRecord K) (level : Nat) : SkillField K where
  name := r.name
  value := r.value.atLevel level
  hitCount := match r.hitCount with
    | some h => h.atLevel level
    | none => 1.0
  affectedBy := r.affectedBy
  base := r.base

/-- The value under the attributes of a character. A damage field gains the addend for skills.
Range, power and durability multiply, durability dividing a cost per second. Efficiency starts
again from the plain value and makes it cheaper, by at most three quarters where durability counts
too. A cost is a whole number. -/
def scaled (f : SkillField K) (s : AttributeSet K) : K :=
  let has (a : Attribute) : Bool := f.affectedBy.contains a
  let durability := s.get .durability
  let lasting := has .durability && 0.0 < durability
  let x := if f.isDamage then f.value + s.get .skillMultiplierAdd else f.value
  let x := if has .range then x * s.get .range else x
  let x := if has .power then x * s.get .power else x
  let x :=
    if lasting then if f.isSustainedCost then x / durability else x * durability
    else x
  let x :=
    if has .efficiency then
      let saving := 2.0 - s.get .efficiency
      if lasting then f.value * Number.greatest (saving / durability) 0.25
      else f.value * saving
    else x
  if f.isCost then Number.ceil x else x

end SkillField

structure Skill (K : Type) where
  record : SkillRecord K
  /-- The weapon that the skill belongs to, if it belongs to one. -/
  weapon : Option String
  level : Nat
  fields : List (SkillField K)

namespace Skill

variable {K : Type}

/-- The lowest level of a skill. -/
def leastLevel : Nat := 1

/-- The highest level of a skill. -/
def greatestLevel : Nat := 12

/-- The level of a skill for which none is given. -/
def defaultLevel : Nat := 10

def clampLevel (n : Nat) : Nat := Level.clamp leastLevel greatestLevel n

def name (s : Skill K) : String := s.record.name

def field? (s : Skill K) (name : String) : Option (SkillField K) :=
  s.fields.find? fun f => f.name == name

/-- The first field that is about damage. -/
def primaryDamage? (s : Skill K) : Option (SkillField K) := s.fields.find? (·.isDamage)

variable [Number K]

/-- A skill at the level nearest to `n`. -/
def atLevel (r : SkillRecord K) (weapon : Option String) (n : Nat) : Skill K :=
  let level := clampLevel n
  ⟨r, weapon, level, r.fields.map fun f => SkillField.atLevel f level⟩

/-- A skill at a level, by default the tenth. -/
def ofRecord (r : SkillRecord K) (level : Option Nat) (weapon : Option String) : Skill K :=
  atLevel r weapon (level.getD defaultLevel)

def setLevel (s : Skill K) (n : Nat) : Skill K := atLevel s.record s.weapon n

end Skill

end Loadout
