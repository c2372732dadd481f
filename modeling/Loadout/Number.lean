/-!
# The numbers of a score

Every formula of the library is written once, over a type `K` of numbers that comes with the
operations collected in `Number`. The program runs on binary floating point
(`Loadout.Number.Binary`); a law that needs exact arithmetic is stated over a type whose
operations are exact, about the same definitions.

The class holds operations and no laws. What the operations mean beyond the field operations:

* `floor`, `ceil` and `round` give whole numbers; `round` sends a half away from zero;
* `rem` is the remainder of the division that truncates toward zero;
* `before` is the order used for sorting, which is total also where `≤` is not;
* `text` is the spelling of a number inside a message.

The rest of the file holds the small functions that are defined from them.
-/

namespace Loadout

/-- The operations that scoring needs of its numbers. -/
class Number (K : Type) extends Add K, Sub K, Mul K, Div K, Neg K, LT K, LE K, BEq K, NatCast K,
    OfScientific K where
  decidableLT : DecidableLT K
  decidableLE : DecidableLE K
  floor : K → K
  ceil : K → K
  round : K → K
  rem : K → K → K
  log : K → K
  power : K → K → K
  finite : K → Bool
  infinity : K
  before : K → K → Bool
  text : K → String

namespace Number

instance {K : Type} [Number K] : DecidableLT K := decidableLT

instance {K : Type} [Number K] : DecidableLE K := decidableLE

instance {K : Type} [Number K] : Inhabited K := ⟨0.0⟩

variable {K : Type} [Number K]

/-- The smaller of two numbers; a number that is not equal to itself never wins. -/
def least (a b : K) : K :=
  if a < b then a else if b == b then b else a

/-- The larger of two numbers; a number that is not equal to itself never wins. -/
def greatest (a b : K) : K :=
  if b < a then a else if b == b then b else a

/-- The nearest number to `x` between `low` and `high`. -/
def clamp (x low high : K) : K :=
  if x < low then low else if high < x then high else x

/-- The distance from zero. -/
def size (x : K) : K :=
  if x < 0.0 then -x else x

/-- Two numbers that differ by no more than one part in 10⁹ of the unit. -/
def close (a b : K) : Bool :=
  decide (size (a - b) ≤ 1e-9)

/-- A whole number, of either sign. -/
def ofInt (i : Int) : K :=
  if i < 0 then -(i.natAbs : K) else (i.natAbs : K)

/-- Multiplies `acc` by `base` raised to `n`, squaring the base at every binary digit of `n`. -/
def powerInto (acc base : K) (n : Nat) : K :=
  let acc' := if n % 2 = 1 then acc * base else acc
  if n < 2 then acc' else powerInto acc' (base * base) (n / 2)
termination_by n
decreasing_by omega

/-- Ten raised to a whole exponent; a negative one gives the reciprocal of the positive power. -/
def tenTo (places : Int) : K :=
  let power := powerInto (1.0 : K) 10.0 places.natAbs
  if places < 0 then 1.0 / power else power

/-- Rounds to a number of decimal places, which may be negative. -/
def roundTo (x : K) (places : Int) : K :=
  let factor : K := tenTo places
  round (x * factor) / factor

/-- The sum from left to right. -/
def sum (xs : List K) : K :=
  xs.foldl (· + ·) 0.0

end Number

end Loadout
