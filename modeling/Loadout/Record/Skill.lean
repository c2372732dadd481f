import Loadout.Attribute.Name
import Loadout.Json.Decode

/-!
# Skills as stored

A skill is a list of named fields. The value of a field is one number, or one for each level of the
skill.
-/

namespace Loadout

inductive FieldValue (K : Type)
  | scalar (x : K)
  | perLevel (xs : List K)

namespace FieldValue

variable {K : Type} [Number K]

/-- The value at a level, counted from one. Beyond the end of a list its last value holds. -/
def atLevel (v : FieldValue K) (level : Nat) : K :=
  match v with
  | scalar x => x
  | perLevel xs => xs[min (level - 1) (xs.length - 1)]?.getD 0.0

def ofJson? (j : Json K) : Option (FieldValue K) :=
  match j.asNumber? with
  | some x => some (scalar x)
  | none => (j.asList? Json.asNumber?).map perLevel

def toJson : FieldValue K → Json K
  | scalar x => .ofNumber x
  | perLevel xs => .ofList .ofNumber xs

end FieldValue

structure FieldRecord (K : Type) where
  name : String
  value : FieldValue K
  /-- How often the field hits; once when absent. -/
  hitCount : Option (FieldValue K)
  /-- The attributes that scale the field. -/
  affectedBy : List Attribute
  /-- The attribute that a damage field multiplies; attack when absent. -/
  base : Option Attribute

structure SkillRecord (K : Type) where
  name : String
  kind : String
  fields : List (FieldRecord K)

variable {K : Type} [Number K]

/-- An attribute by its name or alias. -/
def Attribute.ofJson? (j : Json K) : Option Attribute := j.asString?.bind Attribute.ofName?

namespace FieldRecord

def ofJson? (j : Json K) : Option (FieldRecord K) := do
  let m ← j.asRecord? ["name", "value", "hit_count", "affected_by", "base"]
  return {
    name := ← m.required "name" Json.asString?
    value := ← m.required "value" FieldValue.ofJson?
    hitCount := ← m.optional "hit_count" FieldValue.ofJson?
    affectedBy := ← m.withDefault "affected_by" (Json.asList? Attribute.ofJson?) []
    base := ← m.optional "base" Attribute.ofJson? }

def toJson (f : FieldRecord K) : Json K := .obj [
  ("name", .str f.name),
  ("value", f.value.toJson),
  ("hit_count", .ofOption FieldValue.toJson f.hitCount),
  ("affected_by", .ofList (fun a => .str a.name) f.affectedBy),
  ("base", .ofOption (fun a => .str a.name) f.base)]

end FieldRecord

namespace SkillRecord

def ofJson? (j : Json K) : Option (SkillRecord K) := do
  let m ← j.asRecord? ["name", "kind", "fields"]
  return {
    name := ← m.required "name" Json.asString?
    kind := ← m.withDefault "kind" Json.asString? ""
    fields := ← m.withDefault "fields" (Json.asList? FieldRecord.ofJson?) [] }

def toJson (s : SkillRecord K) : Json K := .obj [
  ("name", .str s.name),
  ("kind", .str s.kind),
  ("fields", .ofList FieldRecord.toJson s.fields)]

end SkillRecord

end Loadout
