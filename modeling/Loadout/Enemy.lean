import Loadout.Level
import Loadout.Record.Monster

/-!
# Enemies

An enemy has two pools. A hit is taken by the shield first, at full value; what the shield does not
take goes on to health and is mitigated by defense on the way.
-/

namespace Loadout

/-- The pool that damage is counted against. -/
inductive Pool
  | health
  | shield
deriving DecidableEq

namespace Pool

def name : Pool → String
  | health => "生命"
  | shield => "护盾"

def ofName? (s : String) : Option Pool := [health, shield].find? fun p => p.name == s

def ofJson? {K : Type} [Number K] (j : Json K) : Option Pool := j.asChoice?.bind ofName?

end Pool

section Mitigation

variable {K : Type} [Number K]

/-- The share of a hit that defense lets through. Part of the defense may be ignored, and each level
that the enemy is above the attacker, up to twenty, makes the rest count for more. -/
def defenseMultiplier (defense ignore : K) (levels : Int) : K :=
  let levels : Nat := (min levels 20).toNat
  let effective := Number.greatest (defense * (1.0 - ignore)) 0.0
  let denominator := 300.0 + effective - (levels : K) * 10.0
  if denominator ≤ 0.0 then 0.0
  else Number.clamp (1.0 - effective / denominator) 0.0 1.0

end Mitigation

/-- What one hit took from each pool. -/
structure PoolHit (K : Type) where
  shield : K
  health : K

def PoolHit.total {K : Type} [Number K] (h : PoolHit K) : K := h.shield + h.health

structure Enemy (K : Type) where
  name : String
  level : Nat
  defense : K
  resistance : K
  maxHealth : K
  maxShield : K
  health : K
  shield : K
  pool : Pool
  /-- A staggered enemy takes the bonus for imbalance. -/
  staggered : Bool
  /-- The type of damage whose trigger affects the enemy; any type when absent. -/
  vulnerable : Option String

namespace Enemy

variable {K : Type} [Number K]

/-- A monster at a level. -/
def ofRecord (r : MonsterRecord K) (level : Nat) : Enemy K :=
  let scale : K := Level.scale level
  let health := Number.round (r.health * scale)
  let shield := Number.round (r.shield * scale)
  { name := r.name
    level := level
    defense := Number.round (r.defense * scale)
    resistance := r.resistance
    maxHealth := health
    maxShield := shield
    health := health
    shield := shield
    pool := .health
    staggered := false
    vulnerable := r.vulnerable }

/-- An enemy without a name that withstands any number of hits. -/
def dummy (level : Nat) : Enemy K where
  name := ""
  level := level
  defense := 0.0
  resistance := 0.0
  maxHealth := Number.infinity
  maxShield := 0.0
  health := Number.infinity
  shield := 0.0
  pool := .health
  staggered := false
  vulnerable := none

/-- The mitigation of what reaches health. -/
def healthMitigation (e : Enemy K) (attackerLevel : Nat) (ignore : K) : K :=
  defenseMultiplier e.defense ignore ((e.level : Int) - attackerLevel)

/-- The mitigation for the pool that damage is counted against; a shield has none. -/
def mitigation (e : Enemy K) (attackerLevel : Nat) (ignore : K) : K :=
  match e.pool with
  | .shield => 1.0
  | .health => e.healthMitigation attackerLevel ignore

/-- The share of a hit that resistance lets through. -/
def resistanceMultiplier (e : Enemy K) (penetration : K) : K :=
  Number.greatest (1.0 - e.resistance + penetration) 0.0

/-- Whether the trigger of a type of damage affects the enemy. -/
def acceptsTrigger (e : Enemy K) (damageType : String) : Bool :=
  match e.vulnerable with
  | some v => v == damageType
  | none => true

/-- Takes a hit that was not mitigated yet. -/
def takeHit (e : Enemy K) (raw mitigation : K) : Enemy K × PoolHit K :=
  let raw := Number.greatest raw 0.0
  let toShield := Number.least raw e.shield
  let shield := e.shield - toShield
  let toHealth := Number.least ((raw - toShield) * mitigation) e.health
  ({ e with
      shield := shield
      health := e.health - toHealth
      pool := if 0.0 < shield then .shield else .health },
    ⟨toShield, toHealth⟩)

def resetPools (e : Enemy K) : Enemy K := { e with health := e.maxHealth, shield := e.maxShield }

def isDead (e : Enemy K) : Bool := e.health ≤ 0.0 && e.shield ≤ 0.0

end Enemy

end Loadout
