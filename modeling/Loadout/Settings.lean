import Loadout.Formula.Token
import Loadout.Json.Decode

/-!
# Settings

What is the same for every loadout that is scored: the caps, the shorthands of formulas, and the
formula to fall back on. Each setting has a default.
-/

namespace Loadout

structure Settings (K : Type) where
  /-- How often the conditions of mods may be checked in turn. -/
  maxConditionPasses : Nat
  /-- The formula for a loadout whose own formula cannot be used. -/
  defaultTarget : String
  shorthands : Formula.Shorthands
  /-- The series of mods that the attribute `modAttribute` strengthens. -/
  elementalSeries : List String
  efficiencyCap : K
  rangeCap : K
  triggerCap : K

namespace Settings

/-- The shorthands that are there without any settings. -/
def defaultShorthands : Formula.Shorthands := .ofList [
  ("DPA", "伤害"),
  ("总伤", "伤害 * max(1, 段数)"),
  ("每秒伤害", "伤害 * or(攻速, 1) * or(多重, 1)"),
  ("DPS", "每秒伤害"),
  ("每神智伤害", "伤害 / max(1, 神智消耗)"),
  ("DPAPM", "每神智伤害"),
  ("每持续神智伤害", "伤害 / max(1, 每秒神智消耗)"),
  ("DPAPSM", "每持续神智伤害"),
  ("每神智每秒伤害", "每秒伤害 / max(1, 神智消耗)"),
  ("DPSPM", "每神智每秒伤害"),
  ("每持续神智每秒伤害", "每秒伤害 / max(1, 每秒神智消耗)"),
  ("DPSPSM", "每持续神智每秒伤害")]

variable {K : Type} [Number K]

def default : Settings K where
  maxConditionPasses := 3
  defaultTarget := "伤害"
  shorthands := defaultShorthands
  elementalSeries := ["狮鹫", "百首", "蝮蛇", "不死鸟"]
  efficiencyCap := 1.75
  rangeCap := 2.8
  triggerCap := 1.0

instance : Inhabited (Settings K) := ⟨default⟩

/-- Whether every setting has its default. -/
def isDefault (s : Settings K) : Bool :=
  let d : Settings K := default
  s.maxConditionPasses == d.maxConditionPasses && s.defaultTarget == d.defaultTarget
    && s.shorthands.entries == d.shorthands.entries && s.elementalSeries == d.elementalSeries
    && s.efficiencyCap == d.efficiencyCap && s.rangeCap == d.rangeCap
    && s.triggerCap == d.triggerCap

def names : List String :=
  ["max_condition_passes", "default_target_function", "macros", "elemental_series",
    "efficiency_cap", "range_cap", "trigger_cap"]

def ofJson? (j : Json K) : Option (Settings K) := do
  let m ← j.asRecord? names
  let d : Settings K := default
  return {
    maxConditionPasses := ← m.withDefault "max_condition_passes" Json.asLongWord? d.maxConditionPasses
    defaultTarget := ← m.withDefault "default_target_function" Json.asString? d.defaultTarget
    shorthands :=
      ← m.withDefault "macros" (fun j => (j.asMembers? Json.asString?).map .ofList) d.shorthands
    elementalSeries :=
      ← m.withDefault "elemental_series" (Json.asList? Json.asString?) d.elementalSeries
    efficiencyCap := ← m.withDefault "efficiency_cap" Json.asNumber? d.efficiencyCap
    rangeCap := ← m.withDefault "range_cap" Json.asNumber? d.rangeCap
    triggerCap := ← m.withDefault "trigger_cap" Json.asNumber? d.triggerCap }

/-- The settings that a text spells out. -/
def ofText? (text : String) : Option (Settings K) := (Json.parse? text).bind ofJson?

def toJson (s : Settings K) : Json K := .obj [
  ("max_condition_passes", .nat s.maxConditionPasses),
  ("default_target_function", .str s.defaultTarget),
  ("macros", .obj (s.shorthands.entries.map fun e => (e.1, .str e.2))),
  ("elemental_series", .ofList .str s.elementalSeries),
  ("efficiency_cap", .ofNumber s.efficiencyCap),
  ("range_cap", .ofNumber s.rangeCap),
  ("trigger_cap", .ofNumber s.triggerCap)]

end Settings

end Loadout
