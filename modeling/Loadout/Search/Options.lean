import Loadout.Build.Options

/-!
# What a search may change

A search may equip the listed mods in the categories that are searched, and may put the listed
weapons into the slots that are not fixed. Everything else about a loadout stays as it is.
-/

namespace Loadout

structure SearchOptions where
  mods : List ModChoice
  meleeWeapons : List String
  rangedWeapons : List String
  /-- The categories to search; every category when there is none. -/
  categories : List ModCategory
  /-- The categories to leave as they are. -/
  preserved : List ModCategory
  fixedMelee : Bool
  fixedRanged : Bool
  /-- The greatest number of rounds. -/
  maxIterations : Nat
  /-- What the random choices are drawn from, if it is fixed. -/
  seed : Option Nat
deriving DecidableEq

namespace SearchOptions

def default : SearchOptions where
  mods := []
  meleeWeapons := []
  rangedWeapons := []
  categories := []
  preserved := []
  fixedMelee := false
  fixedRanged := false
  maxIterations := 200
  seed := none

instance : Inhabited SearchOptions := ⟨default⟩

/-- The categories that are searched, in order. -/
def searched (o : SearchOptions) : List ModCategory :=
  (if o.categories.isEmpty then ModCategory.all else o.categories).filter
    fun c => !o.preserved.contains c

def names : List String :=
  ["mods", "melee_weapons", "ranged_weapons", "categories", "preserved", "fixed_melee",
    "fixed_ranged", "max_iterations", "seed"]

variable {K : Type} [Number K]

def ofJson? (j : Json K) : Option SearchOptions := do
  let m ← j.asRecord? names
  let d := default
  let texts := Json.asList? Json.asString?
  let categories := Json.asList? ModCategory.ofJson?
  return {
    mods := ← m.withDefault "mods" (Json.asList? ModChoice.ofJson?) d.mods
    meleeWeapons := ← m.withDefault "melee_weapons" texts d.meleeWeapons
    rangedWeapons := ← m.withDefault "ranged_weapons" texts d.rangedWeapons
    categories := ← m.withDefault "categories" categories d.categories
    preserved := ← m.withDefault "preserved" categories d.preserved
    fixedMelee := ← m.withDefault "fixed_melee" Json.asBool? d.fixedMelee
    fixedRanged := ← m.withDefault "fixed_ranged" Json.asBool? d.fixedRanged
    maxIterations := ← m.withDefault "max_iterations" Json.asLongWord? d.maxIterations
    seed := ← m.optional "seed" Json.asLongWord? }

def toJson (o : SearchOptions) : Json K := .obj [
  ("mods", .ofList ModChoice.toJson o.mods),
  ("melee_weapons", .ofList .str o.meleeWeapons),
  ("ranged_weapons", .ofList .str o.rangedWeapons),
  ("categories", .ofList (fun c => .str c.name) o.categories),
  ("preserved", .ofList (fun c => .str c.name) o.preserved),
  ("fixed_melee", .bool o.fixedMelee),
  ("fixed_ranged", .bool o.fixedRanged),
  ("max_iterations", .nat o.maxIterations),
  ("seed", .ofOption .nat o.seed)]

end SearchOptions

end Loadout
