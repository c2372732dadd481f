import Loadout.Formula.Error
import Loadout.Record.Mod

/-!
# What can go wrong with a loadout

The causes for which a loadout cannot be put together, changed or read, and the message for each of
them.
-/

namespace Loadout

/-- The tables in which something may be looked up in vain. -/
inductive Lookup
  | character
  | weapon
  | mod
  | buff
  | monster
deriving DecidableEq

def Lookup.name : Lookup → String
  | character => "character"
  | weapon => "weapon"
  | mod => "mod"
  | buff => "buff"
  | monster => "monster"

/-- Why something that is there cannot be used. -/
inductive DataFault
  | categoryFull (category : ModCategory)
  | conflict (fullName : String)
  | misfit (fullName character : String)
  | unknownSubject (mod subject : String)
  | boundWeapon
deriving DecidableEq

def DataFault.message : DataFault → String
  | categoryFull category =>
    let name := category.name
    let cap := category.cap
    s!"{name} mods are full ({cap})"
  | conflict fullName => s!"mod \"{fullName}\" conflicts with an equipped mod"
  | misfit fullName character =>
    s!"mod \"{fullName}\" does not fit {character} with these weapons"
  | unknownSubject mod subject => s!"mod \"{mod}\" has unknown condition subject \"{subject}\""
  | boundWeapon => "the resonance weapon is bound by the character"

/-- Why a loadout cannot be written as a code, or a text is no code. -/
inductive CodeFault
  | wideId (id : Nat)
  | tooManyMods (category : ModCategory)
  | wrongLength (length : Nat)
  | invalidDigits (text : String) (slot : Nat)
deriving DecidableEq

def CodeFault.message : CodeFault → String
  | wideId id => s!"id {id} does not fit in 4 base-36 digits"
  | tooManyMods category =>
    let name := category.name
    let cap := category.cap
    s!"{name} mods exceed {cap} slots"
  | wrongLength length => s!"expected 124 characters, got {length}"
  | invalidDigits text slot => s!"invalid characters \"{text}\" at slot {slot}"

inductive BuildError
  | notFound (table : Lookup) (key : String)
  | formula (e : FormulaError)
  | invalidData (fault : DataFault)
  | conditionCycle (labels : List String)
  | invalidCode (fault : CodeFault)
deriving DecidableEq

def BuildError.message : BuildError → String
  | notFound table key =>
    let name := table.name
    s!"{name} \"{key}\" not found in static data"
  | formula e => e.message
  | invalidData fault => "Invalid static data: " ++ fault.message
  | conditionCycle labels =>
    "Condition cycle detected: " ++
      (if labels.isEmpty then "(empty cycle)" else String.intercalate " -> " labels)
  | invalidCode fault => "Invalid loadout code: " ++ fault.message

/-- An error of a formula is one of the loadout. -/
def liftFormula {α : Type} : Except FormulaError α → Except BuildError α
  | .ok a => .ok a
  | .error e => .error (.formula e)

end Loadout
