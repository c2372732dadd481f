/-!
# What can be wrong with a formula

The causes for which a formula cannot be read or does not fit the names it is checked against, and
the message for each of them. Tokens and operators are named by their text, and positions count the
characters of the text in which the fault lies.
-/

namespace Loadout

/-- What is still missing at the end of a group, a call or a name. -/
inductive FormulaGap
  | operand
  | closeGroup
  | closeArguments
  | qualifiedName
  | memberName
deriving DecidableEq

def FormulaGap.text : FormulaGap → String
  | operand => "operand"
  | closeGroup => "')'"
  | closeArguments => "')' after function arguments"
  | qualifiedName => "identifier after '::'"
  | memberName => "member name after '.'"

inductive FormulaError
  | empty
  | unexpectedChar (c : Char) (position : Nat)
  | singleColon (position : Nat)
  | unexpectedToken (token : String)
  | missingOperand (operator : String)
  | unterminated (gap : FormulaGap)
  | trailingToken (token : String)
  | unknownIdentifier (qualifier : Option String) (name : String)
  | unknownFunction (qualifier : Option String) (name : String)
  | shorthandDepth (name : String)
deriving DecidableEq

namespace Formula

/-- A name with its qualifier before it. -/
def qualifiedText (qualifier : Option String) (name : String) : String :=
  match qualifier with
  | some q => q ++ "::" ++ name
  | none => name

end Formula

namespace FormulaError

def message : FormulaError → String
  | empty => "Formula is empty"
  | unexpectedChar c position => s!"Unexpected character '{c}' at position {position}"
  | singleColon position =>
    s!"Single ':' at position {position} is not supported, use '::' for namespaces"
  | unexpectedToken token => s!"Unexpected token '{token}'"
  | missingOperand operator => s!"Missing operand after operator '{operator}'"
  | unterminated gap => "Expected " ++ gap.text
  | trailingToken token => s!"Unexpected trailing token '{token}'"
  | unknownIdentifier qualifier name =>
    "Unknown identifier '" ++ Formula.qualifiedText qualifier name ++ "'"
  | unknownFunction qualifier name =>
    "Unknown function '" ++ Formula.qualifiedText qualifier name ++ "'"
  | shorthandDepth name => s!"Macro '{name}' expands too deeply"

end FormulaError

end Loadout
