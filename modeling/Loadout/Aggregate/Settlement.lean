import Loadout.Aggregate.Sources

/-!
# Settling conditional mods

A conditional mod is active while its conditions hold, and what it grants may change whether they
do. The flags that say which mods are active are settled in passes. The first pass goes through the
mods in the order of their dependencies and takes up each change at once; every later pass checks
all mods against the same attributes and then takes up all changes. A pass after which every flag
agrees with its conditions is the last one, and there is a greatest number of passes.
-/

namespace Loadout

/-- The attributes with the conditionals settled as far as they could be. -/
structure Settlement (K : Type) where
  attributes : AttributeSet K
  /-- Which conditionals are active, in their order. -/
  flags : List Bool
  /-- The labels of the active conditionals. -/
  active : List String
  passes : Nat
  /-- Whether every flag agrees with its conditions under the attributes. -/
  converged : Bool

/-- Flags and the attributes that follow from them. -/
structure FlagState (K : Type) where
  flags : List Bool
  attributes : AttributeSet K

namespace Sources

variable {K : Type} [Number K]

/-- Whether the conditions of a mod hold under some attributes. -/
def holds (c : Conditional K) (s : AttributeSet K) : Bool :=
  let count (letter : Char) : Nat := c.siblings.countP fun m => m.polarity? == some letter
  c.mod.conditions.all fun condition => condition.holds s count

/-- The flags that agree with some attributes. -/
def wanted (s : Sources K) (attributes : AttributeSet K) : List Bool :=
  s.conditionals.map fun c => holds c attributes

/-- Whether the flags agree with the attributes. -/
def isStable (s : Sources K) (state : FlagState K) : Bool :=
  s.wanted state.attributes == state.flags

/-- The state with given flags. -/
def stateOf (s : Sources K) (flags : List Bool) : FlagState K := ⟨flags, s.pass flags⟩

/-! ## Dependencies -/

/-- Whether a conditional writes an attribute that another one reads. -/
def feeds (writer reader : Conditional K) : Bool :=
  let reads := reader.mod.conditions.filterMap Condition.reads?
  writer.bonuses.attributes.any reads.contains

/-- The graph of the conditionals by their places: one that reads an attribute depends on those that
write it. -/
def conditionGraph (s : Sources K) : DependencyGraph :=
  let cs := s.conditionals.zipIdx
  let nodes := cs.foldl (fun g c => g.addNode c.2 c.1.label) DependencyGraph.empty
  cs.foldl (fun g reader =>
    cs.foldl (fun g writer =>
      if feeds writer.1 reader.1 then g.addEdge reader.2 writer.2 else g) g) nodes

/-! ## Passes -/

/-- Checks one conditional and takes up a change at once. -/
def sweepStep (s : Sources K) (state : FlagState K) (i : Nat) : FlagState K :=
  match s.conditionals[i]? with
  | none => state
  | some c =>
    let flag := holds c state.attributes
    if state.flags[i]? = some flag then state else s.stateOf (state.flags.set i flag)

/-- The first pass. -/
def sweep (s : Sources K) (order : List Nat) (state : FlagState K) : FlagState K :=
  order.foldl s.sweepStep state

/-- A later pass. -/
def revise (s : Sources K) (state : FlagState K) : FlagState K :=
  s.stateOf (s.wanted state.attributes)

/-- Revises until the flags agree, at most so many times. Counts the passes. -/
def settleFrom (s : Sources K) : (left passes : Nat) → FlagState K → Nat × FlagState K
  | 0, passes, state => (passes, state)
  | left + 1, passes, state =>
    if s.isStable state then (passes, state) else s.settleFrom left (passes + 1) (s.revise state)

/-- The labels of the flagged conditionals. -/
def activeLabels (s : Sources K) (flags : List Bool) : List String :=
  ((s.conditionals.zip flags).filter (·.2)).map (·.1.label)

def settle (s : Sources K) : Settlement K :=
  let start := s.stateOf (s.conditionals.map fun _ => false)
  let (passes, state) :=
    if s.conditionals.isEmpty then (0, start)
    else
      let limit := max s.settings.maxConditionPasses 1
      s.settleFrom (limit - 1) 1 (s.sweep s.conditionGraph.checkOrder.1 start)
  { attributes := state.attributes
    flags := state.flags
    active := s.activeLabels state.flags
    passes := passes
    converged := s.isStable state }

end Sources

end Loadout
