import Loadout.Equipment.Weapon
import Loadout.Error

/-!
# A buff at a level

The bonuses of a buff depend on its level. A buff with a script is dynamic: it also changes the
attributes, and the script knows the level.
-/

namespace Loadout

structure Buff (K : Type) where
  record : BuffRecord K
  script : Option (Script K)
  level : Nat
  bonuses : Bonuses K

namespace BuffRecord

variable {K : Type} [Number K]

def hasCoefficients (r : BuffRecord K) : Bool := r.a.isSome || r.b.isSome

/-- The share of the stored bonuses that is there at a level: by the coefficients, else along the
line to the greatest level, else all of it. -/
def factorAt (r : BuffRecord K) (level : Nat) : K :=
  if r.hasCoefficients then
    let least : K := ((r.minLevel.getD 1 : Nat) : K)
    (1.0 + ((level : K) - least) / r.b.getD 1.0) / r.a.getD 1.0
  else match r.maxLevel with
    | some greatest => Level.ramp level greatest
    | none => 1.0

/-- The lowest level of the buff. -/
def leastLevel (r : BuffRecord K) : Nat :=
  r.minLevel.getD (if r.hasCoefficients then 1 else 0)

/-- The highest level of the buff, never below the lowest. -/
def greatestLevel (r : BuffRecord K) : Nat :=
  max (r.maxLevel.getD (max r.leastLevel 1)) r.leastLevel

/-- The level of the buff for which none is given. -/
def usualLevel (r : BuffRecord K) : Nat :=
  (r.defaultLevel.or (r.maxLevel.or r.minLevel)).getD 1

end BuffRecord

namespace Buff

variable {K : Type} [Number K]

def name (b : Buff K) : String := b.record.name

def isDynamic (b : Buff K) : Bool := b.script.isSome

def bonusesAt (r : BuffRecord K) (level : Nat) : Bonuses K :=
  r.bonuses.scale (r.factorAt level) wholeExtras

/-- A buff with its script read, at the level nearest to `n`. -/
def make (r : BuffRecord K) (script : Option (Script K)) (n : Nat) : Buff K :=
  let level := Level.clamp r.leastLevel r.greatestLevel n
  ⟨r, script, level, bonusesAt r level⟩

/-- The script of a record. -/
def scriptOf (r : BuffRecord K) : Except BuildError (Option (Script K)) :=
  match r.script with
  | some steps => liftFormula ((Script.compile steps).map some)
  | none => .ok none

/-- A buff at a level, by default its usual one. -/
def ofRecord (r : BuffRecord K) (level : Option Nat) : Except BuildError (Buff K) := do
  let script ← scriptOf r
  return make r script (level.getD r.usualLevel)

def setLevel (b : Buff K) (n : Nat) : Buff K := make b.record b.script n

end Buff

end Loadout
