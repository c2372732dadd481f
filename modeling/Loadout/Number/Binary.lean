import Loadout.Number
import Loadout.Number.Decimal

/-!
# Binary floating point as numbers of a score

The instance the program runs on. Rounding to whole numbers and the remainder, which are exact, are
computed from the sign, the mantissa and the exponent, and so is the order for sorting, in which
every pattern of bits has one place.
-/

namespace Loadout.Number.Binary

open Decimal

/-- A finite number from its sign and its mantissa and exponent, which fit a floating-point
number exactly. -/
def build (negative : Bool) (mantissa : Nat) (exponent : Int) : Float :=
  let magnitude := (Float.ofNat mantissa).scaleB exponent
  if negative then -magnitude else magnitude

/-- Cuts the magnitude of a number to a whole one, or takes the next one when `up` says so of the
sign, the part cut off and what it is a part of. The sign stays also on a zero. A number with an
exponent that is not negative is whole already. -/
def toWhole (up : (negative : Bool) → (rest unit : Nat) → Bool) (x : Float) : Float :=
  match parts x with
  | .finite negative m e =>
    if 0 ≤ e then x
    else
      let unit := Nat.pow 2 e.natAbs
      let magnitude := m / unit + if up negative (m % unit) unit then 1 else 0
      if negative then -Float.ofNat magnitude else Float.ofNat magnitude
  | _ => x

/-- The greatest whole number that is not above `x`. -/
def floor : Float → Float := toWhole fun negative rest _ => negative && rest != 0

/-- The least whole number that is not below `x`. -/
def ceil : Float → Float := toWhole fun negative rest _ => !negative && rest != 0

/-- The nearest whole number, a half going away from zero. -/
def round : Float → Float := toWhole fun _ rest unit => decide (unit ≤ 2 * rest)

/-- What is left of `x` after taking away `y` as often as it fits, with the sign of `x`. Both are
brought to the smaller exponent, so the division is one of whole numbers. -/
def remainder (x y : Float) : Float :=
  match parts x, parts y with
  | .finite negative m e, .finite _ n f =>
    if n = 0 then 0.0 / 0.0
    else
      let least := min e f
      let rest := m * Nat.pow 2 (e - least).natAbs % (n * Nat.pow 2 (f - least).natAbs)
      build negative rest least
  | .finite .., .infinite _ => x
  | _, _ => 0.0 / 0.0

/-- The place of a number in the total order: the bits as a signed magnitude, the negative ones
from the far end. -/
def rank (x : Float) : Int :=
  let bits := x.toBits.toNat
  if bits < 0x8000000000000000 then bits else 0x7FFFFFFFFFFFFFFF - (bits : Int)

instance : Number Float where
  natCast := Float.ofNat
  decidableLT := fun a b => inferInstanceAs (Decidable (a < b))
  decidableLE := fun a b => inferInstanceAs (Decidable (a ≤ b))
  floor := floor
  ceil := ceil
  round := round
  rem := remainder
  log := Float.log
  power := Float.pow
  finite := Float.isFinite
  infinity := 1.0 / 0.0
  before a b := decide (rank a < rank b)
  text := shortest

end Loadout.Number.Binary
