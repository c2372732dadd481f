import Loadout.Attribute.Bonuses
import Loadout.Script

/-!
# Buffs as stored

A buff grants bonuses that depend on its level, by two coefficients or by its greatest level. A buff
with a script also changes attributes.
-/

namespace Loadout

structure BuffRecord (K : Type) where
  name : String
  description : String
  bonuses : Bonuses K
  a : Option K
  b : Option K
  defaultLevel : Option Nat
  minLevel : Option Nat
  maxLevel : Option Nat
  script : Option (List StepRecord)

namespace BuffRecord

variable {K : Type} [Number K]

def names : List String :=
  ["name", "description", "bonuses", "a", "b", "default_level", "min_level", "max_level", "script"]

def ofJson? (j : Json K) : Option (BuffRecord K) := do
  let m ← j.asRecord? names
  return {
    name := ← m.required "name" Json.asString?
    description := ← m.withDefault "description" Json.asString? ""
    bonuses := ← m.withDefault "bonuses" Bonuses.ofJson? .empty
    a := ← m.optional "a" Json.asNumber?
    b := ← m.optional "b" Json.asNumber?
    defaultLevel := ← m.optional "default_level" Json.asWord?
    minLevel := ← m.optional "min_level" Json.asWord?
    maxLevel := ← m.optional "max_level" Json.asWord?
    script := ← m.optional "script" (Json.asList? StepRecord.ofJson?) }

def toJson (b : BuffRecord K) : Json K := .obj [
  ("name", .str b.name),
  ("description", .str b.description),
  ("bonuses", b.bonuses.toJson),
  ("a", .ofOption .ofNumber b.a),
  ("b", .ofOption .ofNumber b.b),
  ("default_level", .ofOption .nat b.defaultLevel),
  ("min_level", .ofOption .nat b.minLevel),
  ("max_level", .ofOption .nat b.maxLevel),
  ("script", .ofOption (.ofList StepRecord.toJson) b.script)]

end BuffRecord

end Loadout
