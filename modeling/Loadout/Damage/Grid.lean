import Loadout.Number
import Loadout.Outcome

/-!
# Damage by outcome

A grid of damage has a row for each outcome of critical hits and a column for each outcome of
triggers: the lower outcome, the expectation, and the higher outcome.
-/

namespace Loadout

/-- The lower outcome, the expectation and the higher outcome. -/
structure Spread (α : Type) where
  lower : α
  expected : α
  higher : α

namespace Spread

variable {α β : Type}

def same (a : α) : Spread α := ⟨a, a, a⟩

def map (f : α → β) (s : Spread α) : Spread β := ⟨f s.lower, f s.expected, f s.higher⟩

def toList (s : Spread α) : List α := [s.lower, s.expected, s.higher]

end Spread

/-- Damage by the outcome of critical hits, then of triggers. -/
structure DamageGrid (K : Type) where
  rows : Spread (Spread K)

namespace DamageGrid

variable {K : Type}

/-- The same damage for every outcome. -/
def flat (x : K) : DamageGrid K := ⟨.same (.same x)⟩

/-- The damage for an outcome; what is not fixed is the expectation. -/
def get (g : DamageGrid K) : Outcome → K
  | .expected => g.rows.expected.expected
  | .crit => g.rows.higher.expected
  | .noCrit => g.rows.lower.expected
  | .trigger => g.rows.expected.higher
  | .noTrigger => g.rows.expected.lower
  | .critTrigger => g.rows.higher.higher
  | .critNoTrigger => g.rows.higher.lower
  | .triggerNoCrit => g.rows.lower.higher
  | .noCritNoTrigger => g.rows.lower.lower

def expected (g : DamageGrid K) : K := g.get .expected

def map (f : K → K) (g : DamageGrid K) : DamageGrid K := ⟨g.rows.map (·.map f)⟩

/-- Every damage times a factor. -/
def scale [Number K] (g : DamageGrid K) (factor : K) : DamageGrid K := g.map (· * factor)

end DamageGrid

end Loadout
