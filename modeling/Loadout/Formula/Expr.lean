import Loadout.Formula.Error
import Loadout.Formula.Operator

/-!
# Formulas

The tree of a formula. A property is a name to be looked up, with a qualifier if one was written; a
member selects an outcome of what stands before it; a call applies a built-in function.
-/

namespace Loadout.Formula

inductive Expr (K : Type)
  | number (x : K)
  | binary (o : BinaryOp) (left right : Expr K)
  | unary (o : UnaryOp) (operand : Expr K)
  | property (qualifier : Option String) (name : String)
  | call (qualifier : Option String) (name : String) (arguments : List (Expr K))
  | member (object : Expr K) (name : String)

namespace Expr

variable {K : Type}

instance [Number K] : Inhabited (Expr K) := ⟨number 0.0⟩

mutual

/-- The properties of a formula as written, from left to right. -/
def properties : Expr K → List String
  | number _ => []
  | binary _ left right => left.properties ++ right.properties
  | unary _ operand => operand.properties
  | property qualifier name => [qualifiedText qualifier name]
  | call _ _ arguments => propertiesAll arguments
  | member object _ => object.properties

def propertiesAll : List (Expr K) → List String
  | [] => []
  | e :: rest => e.properties ++ propertiesAll rest

end

/-- The properties of a formula, each once, in the order of their first use. -/
def identifierNames (e : Expr K) : List String := e.properties.eraseDups

end Expr

end Loadout.Formula
