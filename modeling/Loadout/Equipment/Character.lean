import Loadout.Level
import Loadout.Record.Character

/-!
# A character at a level

The stats that depend on the level are kept beside it and are always those of the level:
`setLevel` puts both in place together.
-/

namespace Loadout

structure CharacterStats (K : Type) where
  attack : K
  health : K
  shield : K
  defense : K
  sanity : K

structure Character (K : Type) where
  record : CharacterRecord K
  level : Nat
  stats : CharacterStats K

namespace Character

variable {K : Type} [Number K]

/-- The stats at a level. Defense and sanity do not grow. -/
def statsAt (r : CharacterRecord K) (level : Nat) : CharacterStats K :=
  let scale : K := Level.scale level
  { attack := Number.roundTo (r.attack * scale) 2
    health := Number.round (r.health * scale)
    shield := Number.round (r.shield * scale)
    defense := r.defense
    sanity := r.sanity }

/-- A character at the level nearest to `n`. -/
def atLevel (r : CharacterRecord K) (n : Nat) : Character K :=
  let level := Level.clamp Level.least Level.greatest n
  ⟨r, level, statsAt r level⟩

/-- A character at a level, by default the highest. -/
def ofRecord (r : CharacterRecord K) (level : Option Nat) : Character K :=
  atLevel r (level.getD Level.greatest)

def setLevel (c : Character K) (n : Nat) : Character K := atLevel c.record n

end Character

end Loadout
