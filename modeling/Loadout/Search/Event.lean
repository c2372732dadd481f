import Loadout.Build.Basic
import Loadout.Number.Decimal

/-!
# The log of a search

A search tells of every change it makes and of why it ended, one line for each. Gains are shares of a
score and are written as percentages.
-/

namespace Loadout

/-- A line in the log of a search. -/
inductive SearchEvent (K : Type)
  | add (category : ModCategory) (mod : String) (gain : K)
  | swap (category : ModCategory) (out : String) (loss : K) (mod : String) (gain : K)
  | switch (slot : WeaponSlot) (old new : String) (gain : K) (dropped : List String)
  | stopped (iterations : Nat)
  | settled (iterations : Nat)
deriving DecidableEq

/-- The text of a line, for a way to write gains as percentages. -/
def SearchEvent.text {K : Type} (percent : K → String) : SearchEvent K → String
  | add category mod gain => s!"add {category.name} mod {mod} ({percent gain})"
  | swap category out loss mod gain =>
    s!"swap {category.name} mod {out} ({percent loss}) for {mod} ({percent gain})"
  | switch slot old new gain dropped =>
    let line := s!"switch {slot.label} weapon {old} -> {new} ({percent gain})"
    if dropped.isEmpty then line
    else line ++ ", unequipped " ++ String.intercalate ", " dropped
  | stopped iterations => s!"stopped after {iterations} iterations"
  | settled iterations => s!"no improvement after {iterations} iterations"

/-- A gain as a percentage with two places. -/
def percent (gain : Float) : String := Decimal.signedPlaces 2 (gain * 100.0) ++ "%"

end Loadout
