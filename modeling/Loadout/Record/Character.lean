import Loadout.Attribute.Bonuses
import Loadout.Record.Skill

/-!
# Characters as stored

The stats of a character at the highest level.
-/

namespace Loadout

structure CharacterRecord (K : Type) where
  id : Nat
  name : String
  element : String
  attack : K
  health : K
  shield : K
  defense : K
  sanity : K
  bonuses : Bonuses K
  skills : List (SkillRecord K)
  /-- The name of the weapon that belongs to the character. -/
  resonanceWeapon : Option String

namespace CharacterRecord

variable {K : Type} [Number K]

def names : List String :=
  ["id", "name", "element", "attack", "health", "shield", "defense", "sanity", "bonuses", "skills",
    "resonance_weapon"]

def ofJson? (j : Json K) : Option (CharacterRecord K) := do
  let m ← j.asRecord? names
  return {
    id := ← m.required "id" Json.asWord?
    name := ← m.required "name" Json.asString?
    element := ← m.required "element" Json.asString?
    attack := ← m.required "attack" Json.asNumber?
    health := ← m.required "health" Json.asNumber?
    shield := ← m.required "shield" Json.asNumber?
    defense := ← m.required "defense" Json.asNumber?
    sanity := ← m.required "sanity" Json.asNumber?
    bonuses := ← m.withDefault "bonuses" Bonuses.ofJson? .empty
    skills := ← m.withDefault "skills" (Json.asList? SkillRecord.ofJson?) []
    resonanceWeapon := ← m.optional "resonance_weapon" Json.asString? }

def toJson (c : CharacterRecord K) : Json K := .obj [
  ("id", .nat c.id),
  ("name", .str c.name),
  ("element", .str c.element),
  ("attack", .ofNumber c.attack),
  ("health", .ofNumber c.health),
  ("shield", .ofNumber c.shield),
  ("defense", .ofNumber c.defense),
  ("sanity", .ofNumber c.sanity),
  ("bonuses", c.bonuses.toJson),
  ("skills", .ofList SkillRecord.toJson c.skills),
  ("resonance_weapon", .ofOption .str c.resonanceWeapon)]

end CharacterRecord

end Loadout
