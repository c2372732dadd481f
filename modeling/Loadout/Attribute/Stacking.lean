import Loadout.Attribute.Name
import Loadout.Number

/-!
# How contributions to one attribute combine

Several sources may grant the same attribute. Most contributions are summed; some multiply, each
adding its share to what the others left. Every rule starts from zero and takes one contribution
at a time.
-/

namespace Loadout

inductive Stacking
  /-- The sum. -/
  | additive
  /-- The product of all `1 + x`, less one. -/
  | compounding
  /-- One less the product of all `1 - x`. -/
  | diminishing
deriving DecidableEq

namespace Stacking

variable {K : Type} [Number K]

def name : Stacking → String
  | additive => "Additive"
  | compounding => "Compounding"
  | diminishing => "Diminishing"

def ofName? (s : String) : Option Stacking :=
  [additive, compounding, diminishing].find? fun r => r.name == s

/-- Takes one more contribution into a total. -/
def combine (rule : Stacking) (total x : K) : K :=
  match rule with
  | additive => total + x
  | compounding => total + x + total * x
  | diminishing => total + x - total * x

/-- The total of some contributions, from left to right. -/
def total (rule : Stacking) (xs : List K) : K :=
  xs.foldl rule.combine 0.0

end Stacking

namespace Attribute

/-- The rule for the contributions to an attribute. -/
def stacking : Attribute → Stacking
  | independentDamageIncrease | ignoreDefense => .compounding
  | damageReduction => .diminishing
  | _ => .additive

/-- What an attribute starts from: a full share for the four that scale skills, else nothing. -/
def baseValue {K : Type} [Number K] : Attribute → K
  | power | durability | efficiency | range => 1.0
  | _ => 0.0

end Attribute

/-- The rule for the contributions to a stat of a weapon. -/
def WeaponStat.stacking : WeaponStat → Stacking
  | .independentDamageIncrease => .compounding
  | _ => .additive

end Loadout
