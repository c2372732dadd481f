import Loadout.Json.Decode

/-!
# Monsters as stored

The stats of a monster at the highest level.
-/

namespace Loadout

structure MonsterRecord (K : Type) where
  id : Nat
  name : String
  defense : K
  health : K
  shield : K
  resistance : K
  /-- The type of damage whose trigger affects the monster. -/
  vulnerable : Option String

namespace MonsterRecord

variable {K : Type} [Number K]

def ofJson? (j : Json K) : Option (MonsterRecord K) := do
  let m ← j.asRecord? ["id", "name", "defense", "health", "shield", "resistance", "vulnerable"]
  return {
    id := ← m.required "id" Json.asWord?
    name := ← m.required "name" Json.asString?
    defense := ← m.required "defense" Json.asNumber?
    health := ← m.required "health" Json.asNumber?
    shield := ← m.withDefault "shield" Json.asNumber? 0.0
    resistance := ← m.withDefault "resistance" Json.asNumber? 0.0
    vulnerable := ← m.optional "vulnerable" Json.asString? }

def toJson (m : MonsterRecord K) : Json K := .obj [
  ("id", .nat m.id),
  ("name", .str m.name),
  ("defense", .ofNumber m.defense),
  ("health", .ofNumber m.health),
  ("shield", .ofNumber m.shield),
  ("resistance", .ofNumber m.resistance),
  ("vulnerable", .ofOption .str m.vulnerable)]

end MonsterRecord

end Loadout
