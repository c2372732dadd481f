import Loadout.Build.Score
import Loadout.Random.Choice
import Loadout.Search.Event
import Loadout.Search.Options

/-!
# The moves of a search

A move is for one category of mods or one weapon. It offers loadouts that differ from the present one
in that place, each with its gain, and says which gain must be exceeded:

* a category with room offers one more mod, and any gain above zero will do;
* a full category offers another mod for its worst one, and must gain more by it than the worst one
  did;
* a weapon slot offers the other weapons.

`Offer.best?` takes the loadout of the greatest gain if its gain is enough. Gains that are close to
the greatest one count as equal, and among equals one is chosen at random.
-/

namespace Loadout

/-- A loadout that a move offers, what it gains, and the line that tells of it. -/
structure Trial (K : Type) where
  build : Build K
  gain : K
  event : SearchEvent K

/-- The loadouts that a move offers, and the gain that must be exceeded. -/
structure Offer (K : Type) where
  trials : List (Trial K)
  least : K

namespace Offer

variable {K : Type} [Number K]

def none : Offer K := ⟨[], 0.0⟩

/-- The greatest gain. -/
def greatestGain? (o : Offer K) : Option K :=
  match o.trials with
  | [] => .none
  | t :: rest => some (rest.foldl (fun best t => Number.greatest best t.gain) t.gain)

/-- The trials whose gain is close to the greatest one. -/
def ties (o : Offer K) : List (Trial K) :=
  match o.greatestGain? with
  | .none => []
  | some best => o.trials.filter fun t => Number.close t.gain best

/-- One of the best trials, if there is any. -/
def pick {σ : Type} (ch : Chooser σ) (o : Offer K) (s : σ) : Option (Trial K) × σ :=
  if h : 0 < o.ties.length then
    let (i, s) := ch.choose o.ties.length h s
    (some o.ties[i], s)
  else (.none, s)

/-- One of the best trials, if its gain is enough. -/
def best? {σ : Type} (ch : Chooser σ) (o : Offer K) (s : σ) : Option (Trial K) × σ :=
  let (t, s) := o.pick ch s
  (t.bind fun t => if t.gain ≤ o.least then .none else some t, s)

end Offer

namespace Build

variable {K : Type} [Number K]

/-! ## Mods -/

/-- The loadout with one more mod, which must be of a category and not of the id to skip. -/
def extend? (b : Build K) (c : ModCategory) (skip : Option Nat) (choice : ModChoice) :
    Option (Build K × ModRecord K) :=
  match b.database.mod choice.id with
  | .error _ => none
  | .ok r =>
    if r.category = c ∧ some r.id ≠ skip then
      match b.equip choice.id choice.rank with
      | .ok extended => some (extended, r)
      | .error _ => none
    else none

/-- The loadouts with one more mod. -/
def extensions (b : Build K) (c : ModCategory) (skip : Option Nat) (choices : List ModChoice)
    (event : (mod : String) → (gain : K) → SearchEvent K) : List (Trial K) :=
  let base := b.score
  (choices.filterMap (b.extend? c skip)).map fun e =>
    let gain := relativeGain base e.1.score
    ⟨e.1, gain, event e.2.fullName gain⟩

/-- A mod and what it gains. -/
structure Rated (K : Type) where
  mod : Mod K
  gain : K

/-- The first of those with the least gain. -/
def worst? : List (Rated K) → Option (Rated K)
  | [] => none
  | r :: rest =>
    some (rest.foldl (fun worst r => if Number.before r.gain worst.gain then r else worst) r)

/-- The mods of a category and what each of them gains. -/
def rated (b : Build K) (c : ModCategory) : List (Rated K) :=
  (b.mods.get c).map fun m => ⟨m, b.gainRemoving (.mod m.id (some m.rank))⟩

/-- What may be done in a category with room. -/
def fillOffer (b : Build K) (c : ModCategory) (choices : List ModChoice) : Offer K where
  trials := b.extensions c none choices (.add c)
  least := 0.0

/-- What may be done in a full category. -/
def swapOffer (b : Build K) (c : ModCategory) (choices : List ModChoice) : Offer K :=
  match worst? (b.rated c) with
  | none => .none
  | some worst =>
    let reduced := (b.unequip? worst.mod.id).getD b
    { trials := reduced.extensions c (some worst.mod.id) choices
        (.swap c worst.mod.fullName worst.gain)
      least := worst.gain + 1e-9 }

def categoryOffer (b : Build K) (c : ModCategory) (choices : List ModChoice) : Offer K :=
  if (b.mods.get c).length < c.cap then b.fillOffer c choices else b.swapOffer c choices

/-! ## Weapons -/

/-- The loadout with a weapon in place of another one, at the same refinement and level. -/
def switch? (b : Build K) (slot : WeaponSlot) (current : Weapon K) (name : String) :
    Option (Build K × List String) :=
  if name = current.name then none
  else
    match b.setWeapon slot name (some current.refine) (some current.level) with
    | .ok changed => some changed
    | .error _ => none

/-- The name of the weapon in a slot. -/
def weaponName (b : Build K) (slot : WeaponSlot) : String :=
  match b.weapon? slot with
  | some w => w.name
  | none => ""

/-- What may be done in a weapon slot. -/
def weaponOffer (b : Build K) (slot : WeaponSlot) (names : List String) : Offer K :=
  match b.weapon? slot with
  | none => .none
  | some current =>
    let base := b.score
    { trials := (names.filterMap (b.switch? slot current)).map fun changed =>
        let gain := relativeGain base changed.1.score
        ⟨changed.1, gain,
          .switch slot current.name (changed.1.weaponName slot) gain changed.2⟩
      least := 1e-9 }

end Build

/-! ## Moves -/

/-- The place that a move is for. -/
inductive Move
  | category (c : ModCategory)
  | weapon (slot : WeaponSlot)
deriving DecidableEq

namespace SearchOptions

/-- The weapons for a slot. -/
def weapons (o : SearchOptions) : WeaponSlot → List String
  | .melee => o.meleeWeapons
  | .ranged => o.rangedWeapons
  | .resonance => []

/-- The moves of one round. -/
def moves (o : SearchOptions) : List Move :=
  o.searched.map .category ++ (if o.fixedMelee then [] else [.weapon .melee])
    ++ (if o.fixedRanged then [] else [.weapon .ranged])

end SearchOptions

/-- What a move offers. -/
def Build.offer {K : Type} [Number K] (b : Build K) (o : SearchOptions) : Move → Offer K
  | .category c => b.categoryOffer c o.mods
  | .weapon slot => b.weaponOffer slot (o.weapons slot)

end Loadout
