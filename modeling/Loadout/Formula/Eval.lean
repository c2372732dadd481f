import Loadout.Attribute.AttributeSet
import Loadout.Formula.Expr
import Loadout.Outcome

/-!
# The value of a formula

A resolver gives the numbers that names stand for. Evaluation never fails: what the resolver does
not know counts as zero. `Expr.validate` walks the same tree and reports the first name that is not
known, or the first function that is not built in.

The qualifier of a call holds for the names in its arguments that carry none of their own.
-/

namespace Loadout.Formula

/-- The value of a name with a qualifier, for an outcome; none when the name is not known. -/
abbrev Resolver (K : Type) := Option String → String → Outcome → Option K

/-! ## Built-in functions -/

inductive Builtin
  | min
  | max
  | floor
  | ceil
  | or
  | log
  | power
deriving DecidableEq

namespace Builtin

def name : Builtin → String
  | min => "min"
  | max => "max"
  | floor => "floor"
  | ceil => "ceil"
  | or => "or"
  | log => "log"
  | power => "power"

def all : List Builtin := [min, max, floor, ceil, or, log, power]

def ofName? (s : String) : Option Builtin := all.find? fun f => f.name == s

end Builtin

variable {K : Type} [Number K]

/-- Joins the values of a list by an operation, zero for the empty list. -/
def joinAll (f : K → K → K) : List K → K
  | [] => 0.0
  | x :: rest => rest.foldl f x

/-- The first value that is not zero, else the last one. -/
def firstNonzero : List K → K
  | [] => 0.0
  | [x] => x
  | x :: rest => if x == 0.0 then firstNonzero rest else x

/-- The logarithm to a base, natural without one; zero outside its domain. -/
def logarithm (x : K) (base : Option K) : K :=
  if x ≤ 0.0 then 0.0
  else match base with
    | none => Number.log x
    | some b => if 0.0 < b && !(b == 1.0) then Number.log x / Number.log b else 0.0

namespace Builtin

/-- The function on all its arguments, before a value that is not finite is dropped. -/
def raw (f : Builtin) (xs : List K) : K :=
  let first := xs.headD 0.0
  match f with
  | min => joinAll Number.least xs
  | max => joinAll Number.greatest xs
  | floor => Number.floor first
  | ceil => Number.ceil first
  | or => firstNonzero xs
  | log => logarithm first xs[1]?
  | power => Number.power first (xs[1]?.getD 1.0)

/-- The function on all its arguments; a value that is not finite counts as zero. -/
def apply (f : Builtin) (xs : List K) : K :=
  let y := f.raw xs
  if Number.finite y then y else 0.0

end Builtin

/-! ## Evaluation and validation -/

namespace Expr

mutual

/-- The value where names without a qualifier have the qualifier `q`. -/
def evalIn (r : Resolver K) (q : Option String) : Expr K → K
  | number x => x
  | binary o left right => o.apply (left.evalIn r q) (right.evalIn r q)
  | unary o operand => o.apply (operand.evalIn r q)
  | property qualifier name => (r (qualifier.or q) name .expected).getD 0.0
  | member (property qualifier name) selected =>
    (r (qualifier.or q) name ((Outcome.ofName? selected).getD .expected)).getD 0.0
  | member object _ => object.evalIn r q
  | call qualifier name arguments =>
    match Builtin.ofName? name with
    | some f => f.apply (evalAllIn r (qualifier.or q) arguments)
    | none => 0.0

def evalAllIn (r : Resolver K) (q : Option String) : List (Expr K) → List K
  | [] => []
  | e :: rest => e.evalIn r q :: evalAllIn r q rest

end

/-- The value of a formula. -/
def eval (r : Resolver K) (e : Expr K) : K := e.evalIn r none

mutual

/-- Whether all names are known where those without a qualifier have the qualifier `q`. -/
def validateIn (r : Resolver K) (q : Option String) : Expr K → Except FormulaError Unit
  | number _ => .ok ()
  | binary _ left right => do
    left.validateIn r q
    right.validateIn r q
  | unary _ operand => operand.validateIn r q
  | property qualifier name =>
    let effective := qualifier.or q
    if (r effective name .expected).isSome then .ok ()
    else .error (.unknownIdentifier effective name)
  | member object _ => object.validateIn r q
  | call qualifier name arguments =>
    if (Builtin.ofName? name).isSome then validateAllIn r (qualifier.or q) arguments
    else .error (.unknownFunction qualifier name)

def validateAllIn (r : Resolver K) (q : Option String) : List (Expr K) → Except FormulaError Unit
  | [] => .ok ()
  | e :: rest => do
    e.validateIn r q
    validateAllIn r q rest

end

/-- Reports the first name or function of a formula that is not known. -/
def validate (r : Resolver K) (e : Expr K) : Except FormulaError Unit := e.validateIn r none

end Expr

end Loadout.Formula

namespace Loadout.AttributeSet

/-- Attributes alone: no name is qualified, and no value depends on the outcome. -/
def resolver {K : Type} [Number K] (s : AttributeSet K) : Formula.Resolver K :=
  fun qualifier name _ => if qualifier.isSome then none else s.named? name

end Loadout.AttributeSet
