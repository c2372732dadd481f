import Loadout.Number

/-!
# Operators of formulas

Arithmetic never fails: what would divide by zero is zero.
-/

namespace Loadout.Formula

inductive BinaryOp
  | add
  | sub
  | mul
  | div
  | floorDiv
  | rem
deriving DecidableEq

inductive UnaryOp
  | neg
  | plus
deriving DecidableEq

namespace BinaryOp

def symbol : BinaryOp → String
  | add => "+"
  | sub => "-"
  | mul => "*"
  | div => "/"
  | floorDiv => "//"
  | rem => "%"

def all : List BinaryOp := [add, sub, mul, div, floorDiv, rem]

def ofSymbol? (s : String) : Option BinaryOp := all.find? fun o => o.symbol == s

/-- The sign that the operator is when it stands before an operand. -/
def sign? : BinaryOp → Option UnaryOp
  | add => some .plus
  | sub => some .neg
  | mul | div | floorDiv | rem => none

variable {K : Type} [Number K]

def apply (o : BinaryOp) (x y : K) : K :=
  match o with
  | add => x + y
  | sub => x - y
  | mul => x * y
  | div => if y == 0.0 then 0.0 else x / y
  | floorDiv => if y == 0.0 then 0.0 else Number.floor (x / y)
  | rem => if y == 0.0 then 0.0 else Number.rem x y

end BinaryOp

namespace UnaryOp

def apply {K : Type} [Number K] (o : UnaryOp) (x : K) : K :=
  match o with
  | neg => -x
  | plus => x

/-- The operator with the same symbol. -/
def binary : UnaryOp → BinaryOp
  | neg => .sub
  | plus => .add

end UnaryOp

end Loadout.Formula
