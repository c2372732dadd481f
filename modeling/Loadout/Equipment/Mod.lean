import Loadout.Attribute.AttributeSet
import Loadout.Equipment.Weapon
import Loadout.Error

/-!
# A mod at a rank

The bonuses of a mod grow with its rank, and some of them may hold only under conditions. A condition
compares an attribute, or counts the mods of one polarity among those of the same category.
-/

namespace Loadout

/-! ## Conditions -/

inductive ConditionSubject
  | attribute (a : Attribute)
  | polarity (letter : Char)
deriving DecidableEq

structure Condition (K : Type) where
  subject : ConditionSubject
  comparison : Comparison
  value : K

namespace Condition

variable {K : Type}

/-- A subject is the name or alias of an attribute, else its first letter is a polarity. -/
def subject? (s : String) : Option ConditionSubject :=
  match Attribute.ofName? s with
  | some a => some (.attribute a)
  | none =>
    match s.toList.head? with
    | some c => if c.isUpper then some (.polarity c) else none
    | none => none

/-- Reads a condition of the mod with a given name. -/
def ofRecord (mod : String) (r : ConditionRecord K) : Except BuildError (Condition K) :=
  match subject? r.subject with
  | some subject => .ok ⟨subject, r.comparison, r.value⟩
  | none => .error (.invalidData (.unknownSubject mod r.subject))

variable [Number K]

/-- Whether the condition holds, given the attributes and the number of mods of each polarity. -/
def holds (c : Condition K) (s : AttributeSet K) (count : Char → Nat) : Bool :=
  let x : K := match c.subject with
    | .attribute a => s.get a
    | .polarity letter => (count letter : K)
  c.comparison.holds x c.value

/-- The attribute that the condition reads. -/
def reads? (c : Condition K) : Option Attribute :=
  match c.subject with
  | .attribute a => some a
  | .polarity _ => none

end Condition

/-! ## Mods -/

/-- What a mod grants at its rank: always, and while its conditions hold. -/
structure ModStats (K : Type) where
  bonuses : Bonuses K
  conditional : Bonuses K
  /-- A whole number of 32 bits. -/
  tolerance : Int

structure Mod (K : Type) where
  record : ModRecord K
  effect : Option (BuffRecord K)
  conditions : List (Condition K)
  rank : Nat
  stats : ModStats K

namespace Mod

variable {K : Type}

def id (m : Mod K) : Nat := m.record.id

def category (m : Mod K) : ModCategory := m.record.category

def fullName (m : Mod K) : String := m.record.fullName

def isConditional (m : Mod K) : Bool := !m.conditions.isEmpty

def polarity? (m : Mod K) : Option Char := m.record.polarity.bind fun p => p.toList.head?

variable [Number K]

/-- Scales bonuses; the regain of sanity is a whole number. -/
def scaleBonuses (b : Bonuses K) (factor : K) : Bonuses K :=
  (b.scale factor wholeExtras).modify (.character .sanityRegen) Number.round

/-- The rank at which the effects that share a name with a mod are stored. -/
def effectRank : Nat := 10

def statsAt (r : ModRecord K) (effect : Option (BuffRecord K)) (rank : Nat) : ModStats K :=
  let greatest := r.quality.maxRank
  let factor : K := Level.ramp rank greatest
  let own := scaleBonuses r.bonuses factor
  { bonuses := match effect with
      | some e => own.merge (scaleBonuses e.bonuses (Level.ramp rank effectRank))
      | none => own
    conditional := match r.conditional with
      | some c => scaleBonuses c.bonuses factor
      | none => .empty
    tolerance := (r.tolerance - greatest + rank).bmod 0x100000000 }

/-- The conditions of a record. -/
def conditionsOf (r : ModRecord K) : Except BuildError (List (Condition K)) :=
  match r.conditional with
  | some c => c.conditions.mapM (Condition.ofRecord r.name)
  | none => .ok []

/-- A mod with conditions that were read, at the rank nearest to `n`. -/
def make (r : ModRecord K) (effect : Option (BuffRecord K)) (conditions : List (Condition K))
    (n : Nat) : Mod K :=
  let rank := min n r.quality.maxRank
  ⟨r, effect, conditions, rank, statsAt r effect rank⟩

/-- A mod at a rank, by default the highest for its quality. -/
def ofRecord (r : ModRecord K) (effect : Option (BuffRecord K)) (rank : Option Nat) :
    Except BuildError (Mod K) := do
  let conditions ← conditionsOf r
  return make r effect conditions (rank.getD r.quality.maxRank)

def setRank (m : Mod K) (n : Nat) : Mod K := make m.record m.effect m.conditions n

end Mod

end Loadout
