import Loadout.Number.Rounding

/-!
# Decimal texts of a binary number

A binary floating-point number is read apart into its sign, a whole mantissa and a power of two,
and its texts are computed from these in exact arithmetic:

* `shortest`: the fewest digits that read back as the same number, written out in positions;
* `literal`: the fewest digits again, with a point or an exponent that marks them as no whole
  number;
* `scientific`: a fixed count of significant digits with an exponent;
* `signedPlaces`: a fixed count of decimal places, always with a sign.
-/

namespace Loadout.Decimal

open Rounding

/-! ## Reading a binary number apart -/

/-- What the bits of a floating-point number say: a magnitude `mantissa · 2 ^ exponent`, or one
of the two values that have none. -/
inductive Parts
  | finite (negative : Bool) (mantissa : Nat) (exponent : Int)
  | infinite (negative : Bool)
  | undefined

/-- The exponent of the smallest positive number, and of every number below the normal range. -/
def leastExponent : Int := -1074

/-- The leading bit of a mantissa in the normal range, two to the 52nd power, which is not
stored. -/
def hiddenBit : Nat := 0x10000000000000

/-- Sign, exponent and fraction take 1, 11 and 52 bits. -/
def parts (x : Float) : Parts :=
  let bits := x.toBits.toNat
  let negative := bits / 0x8000000000000000 = 1
  let field : Nat := bits / hiddenBit % 2048
  let fraction := bits % hiddenBit
  if field = 2047 then
    if fraction = 0 then .infinite negative else .undefined
  else if field = 0 then
    .finite negative fraction leastExponent
  else
    .finite negative (hiddenBit + fraction) ((field : Int) - 1 + leastExponent)

/-- The ratio `mantissa · 2 ^ exponent`. -/
def ratio (mantissa : Nat) (exponent : Int) : Ratio :=
  if exponent < 0 then ⟨mantissa, Nat.pow 2 exponent.natAbs⟩
  else ⟨mantissa * Nat.pow 2 exponent.natAbs, 1⟩

/-! ## Digits and positions -/

/-- The digits of `n` without the zeros at its end. -/
def trimZeros (n : Nat) : Nat :=
  if n = 0 then 0 else if n % 10 = 0 then trimZeros (n / 10) else n
termination_by n
decreasing_by omega

/-- A text of `n` zeros. -/
def zeros (n : Nat) : String := String.ofList (List.replicate n '0')

/-- Digits written in positions, the first of them at the exponent `e`: no point when the number is
whole, and a zero before the point when it is below one. -/
def positional (digits : Nat) (e : Int) : String :=
  let ds := toString (trimZeros digits)
  if e < 0 then
    "0." ++ zeros (e.natAbs - 1) ++ ds
  else
    let whole := e.natAbs + 1
    if ds.length ≤ whole then ds ++ zeros (whole - ds.length)
    else String.ofList (ds.toList.take whole) ++ "." ++ String.ofList (ds.toList.drop whole)

/-- Digits in scientific form, the point after the first digit and left out when no digit
follows it. -/
def exponential (digits : Nat) (e : Int) : String :=
  let ds := toString (trimZeros digits)
  let tail := ds.toList.drop 1
  let point := if tail.isEmpty then "" else "."
  String.ofList (ds.toList.take 1) ++ point ++ String.ofList tail ++ "e" ++ toString e

/-! ## Shortest digits -/

/-- The numbers that round to a given floating-point number, as an interval around it. Its ends
belong to it when the mantissa is even. -/
structure Neighbourhood where
  low : Ratio
  value : Ratio
  high : Ratio
  closed : Bool

/-- Half the gap to the next number on either side. Below a power of two the gap is half as wide,
unless the exponent is the least one. -/
def neighbourhood (mantissa : Nat) (exponent : Int) : Neighbourhood :=
  let narrow := mantissa = hiddenBit ∧ leastExponent < exponent
  { low := ratio (4 * mantissa - if narrow then 1 else 2) (exponent - 2)
    value := ratio (4 * mantissa) (exponent - 2)
    high := ratio (4 * mantissa + 2) (exponent - 2)
    closed := mantissa % 2 = 0 }

/-- Whether `n · 10 ^ g` reads back as the number. -/
def Neighbourhood.contains (h : Neighbourhood) (n : Nat) (g : Int) : Bool :=
  let low := h.low.unscale g
  let high := h.high.unscale g
  let point := n
  if h.closed then decide (low.num ≤ point * low.den ∧ point * high.den ≤ high.num)
  else decide (low.num < point * low.den ∧ point * high.den < high.num)

/-- Which of two decimals that are equally near to a number stands for it. -/
inductive Tie
  | upper
  | even

/-- Whether the lower of two neighbours on a grid, the multiple `below`, wins a tie. -/
def Tie.lower (t : Tie) (below : Nat) : Bool :=
  match t with
  | .upper => false
  | .even => below % 2 == 0

/-- The multiple of `10 ^ g` that reads back as the number, if there is one: of the two neighbours
of the value the nearer. -/
def Neighbourhood.onGrid? (h : Neighbourhood) (tie : Tie) (g : Int) : Option Nat :=
  let v := h.value.unscale g
  let below := v.floor
  match h.contains below g, h.contains (below + 1) g with
  | true, true =>
    let twice := v.num * 2
    let middle := (2 * below + 1) * v.den
    if twice < middle || (twice == middle && tie.lower below) then some below
    else some (below + 1)
  | true, false => some below
  | false, true => some (below + 1)
  | false, false => none

/-- The first grid of at most `count` digits that holds a hit, from coarse to fine. -/
def Neighbourhood.search (h : Neighbourhood) (tie : Tie) (e : Int) : Nat → Nat → Nat × Int
  | _, 0 => ((h.value.unscale (e - 16)).floor, e - 16)
  | digits, count + 1 =>
    let g := e - digits
    match h.onGrid? tie g with
    | some n => (n, g)
    | none => h.search tie e (digits + 1) count

/-- The shortest digits of a positive number and the exponent of the first of them. -/
def shortestDigits (tie : Tie) (mantissa : Nat) (exponent : Int) : Nat × Int :=
  let h := neighbourhood mantissa exponent
  let (n, g) := h.search tie h.value.leadingExponent 0 17
  (n, g + (digitCount n - 1))

/-- The fewest digits that read back as the same number, without an exponent. -/
def shortest (x : Float) : String :=
  match parts x with
  | .undefined => "NaN"
  | .infinite negative => (if negative then "-" else "") ++ "inf"
  | .finite negative mantissa exponent =>
    let sign := if negative then "-" else ""
    if mantissa = 0 then sign ++ "0"
    else
      let (digits, e) := shortestDigits .upper mantissa exponent
      sign ++ positional digits e

/-- The least and the greatest exponent of a number that `literal` writes in positions. -/
def positionalRange : Int × Int := (-5, 15)

/-- The fewest digits that read back as the same number, in positions unless the number is very
small or very large. A whole number in positions gets a zero after the point. What is not finite
has no literal and is written as null. -/
def literal (x : Float) : String :=
  match parts x with
  | .undefined | .infinite _ => "null"
  | .finite negative mantissa exponent =>
    let sign := if negative then "-" else ""
    if mantissa = 0 then sign ++ "0.0"
    else
      let (digits, e) := shortestDigits .even mantissa exponent
      if positionalRange.1 ≤ e ∧ e ≤ positionalRange.2 then
        let text := positional digits e
        sign ++ if text.contains '.' then text else text ++ ".0"
      else sign ++ exponential digits e

/-! ## Fixed counts of digits -/

/-- A count of significant digits, rounded to the even neighbour at a half. Zero has no sign. -/
def scientific (count : Nat) (x : Float) : String :=
  match parts x with
  | .undefined => "nan"
  | .infinite negative => (if negative then "-" else "") ++ "inf"
  | .finite negative mantissa exponent =>
    if mantissa = 0 then "0e0"
    else
      let (digits, e) := (ratio mantissa exponent).toDigits count
      (if negative then "-" else "") ++ exponential digits e

/-- The last `places` digits of `n` set off by a point. -/
def withPoint (n places : Nat) : String :=
  let fraction := toString (n % Nat.pow 10 places)
  toString (n / Nat.pow 10 places) ++ "." ++ zeros (places - fraction.length) ++ fraction

/-- A count of decimal places with the sign always written; what rounds to zero counts as
positive. -/
def signedPlaces (places : Nat) (x : Float) : String :=
  match parts x with
  | .undefined => "NaN"
  | .infinite negative => (if negative then "-" else "+") ++ "inf"
  | .finite negative mantissa exponent =>
    let scaled := (ratio mantissa exponent).unscale (-places)
    let n := nearestEven scaled.num scaled.den
    (if negative ∧ n ≠ 0 then "-" else "+") ++ withPoint n places

end Loadout.Decimal
