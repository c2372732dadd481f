import Loadout.Attribute.Bonuses
import Loadout.Record.Skill

/-!
# Weapons as stored

The stats of a weapon at the highest level and refinement, and the table from which the multiplier
of a resonance weapon follows its rank.
-/

namespace Loadout

structure WeaponRecord (K : Type) where
  id : Nat
  name : String
  kind : WeaponKind
  /-- The class within the kind, which mods may be restricted to. -/
  category : String
  damageType : String
  attack : K
  critRate : K
  critDamage : K
  triggerRate : K
  multiplier : K
  /-- Attacks in a second, for a weapon that keeps firing. -/
  fireRate : Option K
  magazine : Option K
  reload : Option K
  bonuses : Bonuses K
  skills : List (SkillRecord K)
  /-- The row of the table of multipliers. -/
  baseMultiplier : Option String

namespace WeaponRecord

variable {K : Type} [Number K]

def names : List String :=
  ["id", "name", "weapon_type", "category", "damage_type", "attack", "crit_rate", "crit_damage",
    "trigger_rate", "multiplier", "fire_rate", "magazine", "reload", "bonuses", "skills",
    "base_multiplier"]

def ofJson? (j : Json K) : Option (WeaponRecord K) := do
  let m ← j.asRecord? names
  return {
    id := ← m.required "id" Json.asWord?
    name := ← m.required "name" Json.asString?
    kind := ← m.required "weapon_type" fun j => j.asString?.bind WeaponKind.ofName?
    category := ← m.withDefault "category" Json.asString? ""
    damageType := ← m.withDefault "damage_type" Json.asString? ""
    attack := ← m.withDefault "attack" Json.asNumber? 0.0
    critRate := ← m.withDefault "crit_rate" Json.asNumber? 0.0
    critDamage := ← m.withDefault "crit_damage" Json.asNumber? 0.0
    triggerRate := ← m.withDefault "trigger_rate" Json.asNumber? 0.0
    multiplier := ← m.withDefault "multiplier" Json.asNumber? 1.0
    fireRate := ← m.optional "fire_rate" Json.asNumber?
    magazine := ← m.optional "magazine" Json.asNumber?
    reload := ← m.optional "reload" Json.asNumber?
    bonuses := ← m.withDefault "bonuses" Bonuses.ofJson? .empty
    skills := ← m.withDefault "skills" (Json.asList? SkillRecord.ofJson?) []
    baseMultiplier := ← m.optional "base_multiplier" Json.asString? }

def toJson (w : WeaponRecord K) : Json K := .obj [
  ("id", .nat w.id),
  ("name", .str w.name),
  ("weapon_type", .str w.kind.name),
  ("category", .str w.category),
  ("damage_type", .str w.damageType),
  ("attack", .ofNumber w.attack),
  ("crit_rate", .ofNumber w.critRate),
  ("crit_damage", .ofNumber w.critDamage),
  ("trigger_rate", .ofNumber w.triggerRate),
  ("multiplier", .ofNumber w.multiplier),
  ("fire_rate", .ofOption .ofNumber w.fireRate),
  ("magazine", .ofOption .ofNumber w.magazine),
  ("reload", .ofOption .ofNumber w.reload),
  ("bonuses", w.bonuses.toJson),
  ("skills", .ofList SkillRecord.toJson w.skills),
  ("base_multiplier", .ofOption .str w.baseMultiplier)]

end WeaponRecord

/-- The multiplier of a resonance weapon at its first and its tenth rank. -/
structure BaseMultiplier (K : Type) where
  rank1 : K
  rank10 : K

namespace BaseMultiplier

variable {K : Type} [Number K]

/-- The multiplier at a rank, on the straight line through both. -/
def atRank (m : BaseMultiplier K) (rank : Nat) : K :=
  let step := (m.rank10 - m.rank1) / 9.0
  m.rank1 + step * ((max rank 1 : Nat) - 1.0)

def ofJson? (j : Json K) : Option (BaseMultiplier K) := do
  let m ← j.asRecord? ["rank1", "rank10"]
  return {
    rank1 := ← m.required "rank1" Json.asNumber?
    rank10 := ← m.required "rank10" Json.asNumber? }

end BaseMultiplier

end Loadout
