import Loadout.Equipment.Skill
import Loadout.Level
import Loadout.Record.Buff
import Loadout.Record.Weapon

/-!
# A weapon at a level

A weapon has a level, a refinement that its bonuses depend on, and a rank that the multiplier and the
skills of a resonance weapon depend on. The numbers that follow from them are kept beside them and
are put in place together with every change.
-/

namespace Loadout

/-- Extras that have whole values only. -/
def wholeExtras : List String := ["最大耐受"]

/-- The numbers of a weapon before any bonus from elsewhere. -/
structure WeaponBase (K : Type) where
  attack : K
  critRate : K
  critDamage : K
  triggerRate : K
  multiplier : K
  fireRate : Option K
  magazine : Option K
  reload : Option K
  bonuses : Bonuses K

structure Weapon (K : Type) where
  record : WeaponRecord K
  effect : Option (BuffRecord K)
  table : Option (BaseMultiplier K)
  level : Nat
  refine : Nat
  skillLevel : Nat
  skills : List (Skill K)
  base : WeaponBase K

namespace Weapon

variable {K : Type} [Number K]

/-- The highest refinement, at which bonuses are stored. -/
def greatestRefine : Nat := 5

def name (w : Weapon K) : String := w.record.name

def kind (w : Weapon K) : WeaponKind := w.record.kind

/-- The share of the stored bonuses that is there at a refinement, one half without any. -/
def refineFactor (refine : Nat) : K := ((refine : K) + 5.0) / 10.0

/-- The bonuses of a weapon and of the effect of its name. -/
def bonusesAt (r : WeaponRecord K) (effect : Option (BuffRecord K)) (refine : Nat) : Bonuses K :=
  let factor : K := refineFactor refine
  let own := r.bonuses.scale factor wholeExtras
  match effect with
  | some e => own.merge (e.bonuses.scale factor wholeExtras)
  | none => own

/-- The numbers at a level, a refinement and a rank. -/
def baseAt (r : WeaponRecord K) (effect : Option (BuffRecord K)) (table : Option (BaseMultiplier K))
    (level refine skillLevel : Nat) : WeaponBase K where
  attack := Number.roundTo (r.attack * Level.scale level) 2
  critRate := r.critRate
  critDamage := r.critDamage
  triggerRate := r.triggerRate
  multiplier := match table with
    | some t => t.atRank skillLevel
    | none => r.multiplier
  fireRate := r.fireRate
  magazine := r.magazine
  reload := r.reload
  bonuses := bonusesAt r effect refine

/-- A weapon whose three parameters are those nearest to the given ones. -/
def make (r : WeaponRecord K) (effect : Option (BuffRecord K)) (table : Option (BaseMultiplier K))
    (level refine skillLevel : Nat) : Weapon K :=
  let level := Level.clamp Level.least Level.greatest level
  let refine := min refine greatestRefine
  let skillLevel := Skill.clampLevel skillLevel
  { record := r
    effect := effect
    table := table
    level := level
    refine := refine
    skillLevel := skillLevel
    skills := r.skills.map fun s => Skill.atLevel s (some r.name) skillLevel
    base := baseAt r effect table level refine skillLevel }

/-- A weapon at a refinement and a level, by default the highest. -/
def ofRecord (r : WeaponRecord K) (effect : Option (BuffRecord K))
    (table : Option (BaseMultiplier K)) (refine level : Option Nat) : Weapon K :=
  make r effect table (level.getD Level.greatest) (refine.getD greatestRefine) Skill.defaultLevel

def setLevel (w : Weapon K) (n : Nat) : Weapon K :=
  make w.record w.effect w.table n w.refine w.skillLevel

def setRefine (w : Weapon K) (n : Nat) : Weapon K :=
  make w.record w.effect w.table w.level n w.skillLevel

def setSkillLevel (w : Weapon K) (n : Nat) : Weapon K :=
  make w.record w.effect w.table w.level w.refine n

end Weapon

end Loadout
