import Loadout.Build.Scene
import Loadout.Timeline

/-!
# Replaying a timeline

The actions of a timeline are played in order against one enemy. Each action has a loadout of its
own, which carries the buffs that reach the action. Its raw damage goes through the pools of the
enemy as the actions before it have left them.
-/

namespace Loadout

/-- What one action of a timeline did. -/
structure ActionReport (K : Type) where
  name : String
  start : K
  /-- The buffs that the timeline added. -/
  buffs : List String
  attacks : K
  /-- The damage before the enemy takes it. -/
  raw : K
  dealt : PoolHit K

/-- What a timeline did, and the enemy as it was left. -/
structure ReplayReport (K : Type) where
  actions : List (ActionReport K)
  total : K
  enemy : Enemy K

namespace Build

variable {K : Type} [Number K]

/-- A loadout for one action, with the buffs that the timeline has added to it. -/
structure Scenario (K : Type) where
  build : Build K
  added : List String

/-- Adds a buff of a timeline unless there is one of its name already. -/
def Scenario.addBuff (s : Scenario K) (item : BuffItem K) : Except BuildError (Scenario K) :=
  if s.build.hasBuff item.name then .ok s
  else do
    let b ← s.build.addBuff item.name item.level
    return ⟨b, s.added ++ [item.name]⟩

/-- The loadout for an action of a timeline. -/
def scenario (b : Build K) (t : Timeline K) (a : ActionItem K) : Except BuildError (Scenario K) :=
  (t.activeBuffs a.layer a.start).foldlM Scenario.addBuff
    ⟨{ b with timeline := none, actionName := a.name }, []⟩

/-- How many attacks the selected action makes in a duration: a weapon that fires makes as many as it
gets off, anything else makes one. -/
def attacksIn (c : Scene K) (duration : K) : K :=
  match c.action with
  | .weapon w =>
    match w.weapon.base.fireRate with
    | some rate =>
      let stats := c.stats w
      attackCount duration (rate * stats.attackSpeed) stats.magazine stats.reload * stats.multiShot
    | none => 1.0
  | _ => 1.0

/-- Plays one action against an enemy. The defense of the enemy counts when health is reached and
not before. -/
def playAction (b : Build K) (t : Timeline K) (enemy : Enemy K) (a : ActionItem K) :
    Except BuildError (Enemy K × ActionReport K) := do
  let s ← b.scenario t a
  let scene := { s.build.scene with defense := some 1.0 }
  let attacks := attacksIn scene a.duration
  let raw := scene.actionTotal .expected * attacks
  let mitigation :=
    enemy.healthMitigation s.build.character.level (scene.attributes.get .ignoreDefense)
  let (after, dealt) := enemy.takeHit raw mitigation
  return (after, ⟨a.name, a.start, s.added, attacks, raw, dealt⟩)

/-- Plays actions one after another. -/
def playAll (b : Build K) (t : Timeline K) :
    Enemy K → List (ActionItem K) → Except BuildError (Enemy K × List (ActionReport K))
  | enemy, [] => .ok (enemy, [])
  | enemy, a :: rest => do
    let (after, report) ← b.playAction t enemy a
    let (last, reports) ← b.playAll t after rest
    return (last, report :: reports)

/-- Plays a timeline against the enemy of a loadout. -/
def replay (b : Build K) (t : Timeline K) : Except BuildError (ReplayReport K) := do
  let (enemy, reports) ← b.playAll t b.enemy t.actions
  return ⟨reports, Number.sum (reports.map (·.dealt.total)), enemy⟩

end Build

end Loadout
