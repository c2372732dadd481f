import Loadout.Record.Mod

/-!
# Exclusion among mods

Within a category a mod is equipped at most once, by id and by full name, and of the exclusive mods
of one series at most one. The state of a category remembers what its mods rule out, and is kept up
to date as mods come and go.
-/

namespace Loadout

structure Exclusion where
  /-- The series of the exclusive mods. -/
  series : List String
  /-- The full names of all mods. -/
  names : List String
  /-- How many mods there are of each id that has been seen. -/
  counts : Table Nat Nat
deriving DecidableEq

namespace Exclusion

variable {K : Type}

def empty : Exclusion := ⟨[], [], .empty⟩

/-- Adds a member to a set kept as a list. -/
def adjoin {α : Type} [DecidableEq α] (a : α) (set : List α) : List α :=
  if a ∈ set then set else a :: set

/-- Takes a member out of a set kept as a list. -/
def discard {α : Type} [DecidableEq α] (a : α) (set : List α) : List α :=
  set.filter (· ≠ a)

/-- The number of mods with an id. -/
def count (e : Exclusion) (id : Nat) : Nat := e.counts.findD id 0

/-- Whether a mod may join. -/
def admits (e : Exclusion) (m : ModRecord K) : Bool :=
  if 0 < e.count m.id || e.names.contains m.fullName then false
  else !(m.exclusive && e.series.contains m.series)

def insert (e : Exclusion) (m : ModRecord K) : Exclusion where
  series := if m.exclusive then adjoin m.series e.series else e.series
  names := adjoin m.fullName e.names
  counts := e.counts.alter m.id fun n => n.getD 0 + 1

def remove (e : Exclusion) (m : ModRecord K) : Exclusion where
  series := if m.exclusive then discard m.series e.series else e.series
  names := discard m.fullName e.names
  counts := e.counts.map fun id n => if id = m.id then n - 1 else n

/-- The state of a category with given mods. -/
def ofMods (mods : List (ModRecord K)) : Exclusion := mods.foldl insert empty

end Exclusion

end Loadout
