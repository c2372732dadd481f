import Loadout.Formula.Error
import Loadout.Formula.Operator
import Loadout.Table
import Loadout.Text.CharClass

/-!
# Tokens of a formula

A text is cut into tokens in two stages. `scan` cuts without looking at any table; it goes as far as
it can and reports the fault it stopped at, if any. Then every identifier that is a shorthand is
replaced by the tokens of its expansion in parentheses. An expansion is read the same way, except
that the shorthands it lies in stand for themselves there, so a table may mention itself; chains of
expansions have a fixed greatest length, which is what the recursion goes down by.

Faults are met in the order of the text: one inside an expansion comes before one further right.
-/

namespace Loadout.Formula

inductive Token (K : Type)
  | number (x : K)
  | ident (name : String)
  | op (o : BinaryOp)
  | dot
  | colons
  | openParen
  | closeParen
  | comma

variable {K : Type} [Number K]

/-- The text of a token inside a message. -/
def Token.text : Token K → String
  | number x => Number.text x
  | ident name => name
  | op o => o.symbol
  | dot => "."
  | colons => "::"
  | openParen => "("
  | closeParen => ")"
  | comma => ","

/-! ## Cutting a text -/

def isNameStart (c : Char) : Bool := Text.isLetter c || c == '_' || c == '['

def isNameChar (c : Char) : Bool :=
  Text.isLetter c || Text.isNumeral c || c == '_' || c == '[' || c == ']'

def isLiteralChar (c : Char) : Bool := c.isDigit || c == '.'

/-- The number that the digits of a text are, up to its second point. -/
def literal (text : List Char) : K :=
  let whole := text.takeWhile Char.isDigit
  let fraction := ((text.dropWhile Char.isDigit).drop 1).takeWhile Char.isDigit
  let digits := (whole ++ fraction).foldl (fun n c => n * 10 + (c.toNat - '0'.toNat)) 0
  OfScientific.ofScientific digits true fraction.length

/-- The number of digits with at most one point before, among or behind them, if a text is that. -/
def decimal? (text : List Char) : Option K :=
  let rest := text.dropWhile Char.isDigit
  if text.any Char.isDigit && rest.head?.all (· == '.') && (rest.drop 1).all Char.isDigit then
    some (literal text)
  else none

/-- What stands before the second point of a text. -/
def beforeSecondPoint (text : List Char) : List Char :=
  let rest := text.dropWhile (· != '.')
  text.takeWhile (· != '.') ++ rest.take 1 ++ (rest.drop 1).takeWhile (· != '.')

/-- The number of a literal. One with several points is read up to the second of them, without the points
at its end. -/
def literal? (text : List Char) : Option K :=
  match decimal? text with
  | some x => some x
  | none => decimal? ((beforeSecondPoint text).reverse.dropWhile (· == '.')).reverse

/-- The token that begins with a character, if it is not blank, and how many of the following
characters belong to it. -/
def cut (position : Nat) (c : Char) (rest : List Char) :
    Except FormulaError (Option (Token K) × Nat) :=
  if Text.isBlank c then .ok (none, 0)
  else if c.isDigit then
    let more := rest.takeWhile isLiteralChar
    match literal? (c :: more) with
    | some x => .ok (some (.number x), more.length)
    | none => .error (.unexpectedToken (String.ofList (c :: more)))
  else if isNameStart c then
    let more := rest.takeWhile isNameChar
    .ok (some (.ident (String.ofList (c :: more))), more.length)
  else match c with
    | '/' => if rest.head? = some '/' then .ok (some (.op .floorDiv), 1) else .ok (some (.op .div), 0)
    | '%' => .ok (some (.op .rem), 0)
    | '+' => .ok (some (.op .add), 0)
    | '-' => .ok (some (.op .sub), 0)
    | '*' => .ok (some (.op .mul), 0)
    | '.' => .ok (some .dot, 0)
    | ':' => if rest.head? = some ':' then .ok (some .colons, 1) else .error (.singleColon position)
    | '(' => .ok (some .openParen, 0)
    | ')' => .ok (some .closeParen, 0)
    | ',' => .ok (some .comma, 0)
    | c => .error (.unexpectedChar c position)

/-- The tokens up to the end of a text or to its first fault. -/
structure Scan (K : Type) where
  tokens : List (Token K)
  fault : Option FormulaError

def scan (position : Nat) : List Char → Scan K
  | [] => ⟨[], none⟩
  | c :: rest =>
    match cut position c rest with
    | .error e => ⟨[], some e⟩
    | .ok (token, more) =>
      let tail := scan (position + 1 + more) (rest.drop more)
      { tail with tokens := token.toList ++ tail.tokens }
termination_by text => text.length
decreasing_by rw [List.length_drop, List.length_cons]; omega

/-! ## Shorthands -/

/-- Expansions by the name they are written for. -/
abbrev Shorthands := Table String String

/-- How many expansions may lie in one another. -/
def maxDepth : Nat := 16

/-- The tokens that a token stands for, inside the expansions of `active`. -/
def expandToken (table : Shorthands) (active : List String)
    (expand : String → String → Except FormulaError (List (Token K))) (token : Token K) :
    Except FormulaError (List (Token K)) :=
  match token with
  | .ident name =>
    match table.find? name with
    | none => .ok [token]
    | some expansion =>
      if active.contains name then .ok [token]
      else do
        let inner ← expand name expansion
        return .openParen :: inner ++ [.closeParen]
  | _ => .ok [token]

/-- The tokens of a scanned text; its fault is met behind those of its expansions. -/
def expandScan (table : Shorthands) (active : List String)
    (expand : String → String → Except FormulaError (List (Token K))) (s : Scan K) :
    Except FormulaError (List (Token K)) := do
  let parts ← s.tokens.mapM (expandToken table active expand)
  match s.fault with
  | some e => throw e
  | none => return parts.flatten

/-- The tokens of a text that lies inside the expansions of `active`, with room for so many more. -/
def tokensWithin (table : Shorthands) :
    (room : Nat) → (active : List String) → (text : String) →
      Except FormulaError (List (Token K))
  | 0, active, text =>
    expandScan table active (fun name _ => .error (.shorthandDepth name)) (scan 0 text.toList)
  | room + 1, active, text =>
    expandScan table active (fun name expansion => tokensWithin table room (name :: active) expansion)
      (scan 0 text.toList)

/-- The tokens of a formula. -/
def tokenize (table : Shorthands) (text : String) : Except FormulaError (List (Token K)) :=
  tokensWithin table maxDepth [] text

end Loadout.Formula
