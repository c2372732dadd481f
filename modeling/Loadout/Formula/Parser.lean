import Loadout.Formula.Expr
import Loadout.Formula.Token

/-!
# Reading a formula

The grammar, from the loosest binding to the tightest:

    expr   := term (('+' | '-') term)*
    term   := unary (('*' | '/' | '//' | '%') unary)*
    unary  := ('+' | '-') unary | factor
    factor := (number | name ('(' arguments ')')? | '(' expr ')') ('.' ident)*
    name   := ident ('::' ident)?

Tokens are taken one at a time. What is unfinished is kept in three places: the parentheses that are
still open, the operators that still lack their right operand since the innermost of them
(`Pending`), and the place within an operand (`Phase`). An operator that binds no tighter than a
pending one finishes it, which makes all binary operators group to the left.
-/

namespace Loadout.Formula

variable {K : Type}

/-! ## Unfinished formulas -/

/-- The operators in front of the operand that is being read: at most one of each level, and any
number of signs, the last written first. -/
structure Pending (K : Type) where
  sum : Option (Expr K × BinaryOp)
  product : Option (Expr K × BinaryOp)
  signs : List UnaryOp

namespace Pending

def none : Pending K := ⟨.none, .none, []⟩

/-- Joins a right operand to what waits for it. -/
def join (left : Option (Expr K × BinaryOp)) (right : Expr K) : Expr K :=
  match left with
  | .none => right
  | some (l, o) => .binary o l right

/-- The operand with its signs and the product before it. -/
def closeProduct (p : Pending K) (operand : Expr K) : Expr K :=
  join p.product (p.signs.foldl (fun e s => .unary s e) operand)

/-- The operand with everything before it. -/
def close (p : Pending K) (operand : Expr K) : Expr K :=
  join p.sum (p.closeProduct operand)

/-- What is pending once a binary operator follows the operand. -/
def push (p : Pending K) (operand : Expr K) (o : BinaryOp) : Pending K :=
  match o.sign? with
  | some _ => ⟨some (p.close operand, o), .none, []⟩
  | .none => ⟨p.sum, some (p.closeProduct operand, o), []⟩

def pushSign (p : Pending K) (s : UnaryOp) : Pending K := { p with signs := s :: p.signs }

end Pending

/-- An open parenthesis: one that groups, or one around the arguments of a call, with the arguments
finished so far, last first. -/
inductive Enclosure (K : Type)
  | group
  | call (qualifier : Option String) (name : String) (arguments : List (Expr K))

/-- What stands before an operand that has not begun. -/
inductive Before
  | start
  | binary (o : BinaryOp)
  | sign (o : UnaryOp)

/-- The place within an operand. -/
inductive Phase (K : Type)
  | operand (before : Before)
  | firstArgument
  | bareName (name : String)
  | qualifier (name : String)
  | qualifiedName (qualifier name : String)
  | memberName (object : Expr K)
  | finished (e : Expr K)

/-- A formula of which some tokens have been read. -/
structure Unfinished (K : Type) where
  enclosing : List (Enclosure K × Pending K)
  pending : Pending K
  phase : Phase K

namespace Unfinished

def start : Unfinished K := ⟨[], .none, .operand .start⟩

/-- The gap that is left when the innermost parenthesis does not close here. -/
def gap : Enclosure K → FormulaGap
  | .group => .closeGroup
  | .call .. => .closeArguments

variable [Number K]

/-! ## One token -/

/-- Begins an operand. -/
def beginOperand (s : Unfinished K) (before : Before) (t : Token K) :
    Except FormulaError (Unfinished K) :=
  match t with
  | .number x => .ok { s with phase := .finished (.number x) }
  | .ident name => .ok { s with phase := .bareName name }
  | .openParen => .ok ⟨(.group, s.pending) :: s.enclosing, .none, .operand .start⟩
  | .op o =>
    match o.sign? with
    | some sign => .ok { s with pending := s.pending.pushSign sign, phase := .operand (.sign sign) }
    | none => .error (fault before)
  | .closeParen | .comma => .error (fault before)
  | .dot | .colons => .error (.unexpectedToken t.text)
where
  /-- A token that ends operands means that a binary operator before it has none. -/
  fault : Before → FormulaError
    | .binary o => .missingOperand o.symbol
    | .start | .sign _ => .unexpectedToken t.text

/-- Closes the innermost parenthesis behind a finished operand. -/
def closeParen (s : Unfinished K) (operand : Expr K) : Except FormulaError (Unfinished K) :=
  match s.enclosing with
  | [] => .error (.trailingToken (Token.closeParen (K := K)).text)
  | (.group, pending) :: rest => .ok ⟨rest, pending, .finished (s.pending.close operand)⟩
  | (.call qualifier name arguments, pending) :: rest =>
    let arguments := (s.pending.close operand :: arguments).reverse
    .ok ⟨rest, pending, .finished (.call qualifier name arguments)⟩

/-- Takes a token behind a finished operand. -/
def follow (s : Unfinished K) (operand : Expr K) (t : Token K) :
    Except FormulaError (Unfinished K) :=
  match t with
  | .dot => .ok { s with phase := .memberName operand }
  | .op o => .ok { s with pending := s.pending.push operand o, phase := .operand (.binary o) }
  | .closeParen => s.closeParen operand
  | t =>
    match s.enclosing, t with
    | [], t => .error (.trailingToken t.text)
    | (.call qualifier name arguments, pending) :: rest, .comma =>
      let arguments := s.pending.close operand :: arguments
      .ok ⟨(.call qualifier name arguments, pending) :: rest, .none, .operand .start⟩
    | (enclosure, _) :: _, _ => .error (.unterminated (gap enclosure))

/-- Opens the arguments of a call. -/
def openCall (s : Unfinished K) (qualifier : Option String) (name : String) : Unfinished K :=
  ⟨(.call qualifier name [], s.pending) :: s.enclosing, .none, .firstArgument⟩

/-- Takes one token. -/
def next (s : Unfinished K) (t : Token K) : Except FormulaError (Unfinished K) :=
  match s.phase with
  | .operand before => s.beginOperand before t
  | .firstArgument =>
    match t, s.enclosing with
    | .closeParen, (.call qualifier name _, pending) :: rest =>
      .ok ⟨rest, pending, .finished (.call qualifier name [])⟩
    | t, _ => s.beginOperand .start t
  | .bareName name =>
    match t with
    | .colons => .ok { s with phase := .qualifier name }
    | .openParen => .ok (s.openCall none name)
    | t => s.follow (.property none name) t
  | .qualifier q =>
    match t with
    | .ident name => .ok { s with phase := .qualifiedName q name }
    | _ => .error (.unterminated .qualifiedName)
  | .qualifiedName q name =>
    match t with
    | .openParen => .ok (s.openCall (some q) name)
    | t => s.follow (.property (some q) name) t
  | .memberName object =>
    match t with
    | .ident name => .ok { s with phase := .finished (.member object name) }
    | _ => .error (.unterminated .memberName)
  | .finished e => s.follow e t

/-! ## The end -/

/-- The formula, if nothing is missing behind a finished operand. -/
def finish (s : Unfinished K) (operand : Expr K) : Except FormulaError (Expr K) :=
  match s.enclosing with
  | [] => .ok (s.pending.close operand)
  | (enclosure, _) :: _ => .error (.unterminated (gap enclosure))

/-- The formula that has been read when the tokens end. -/
def result (s : Unfinished K) : Except FormulaError (Expr K) :=
  match s.phase with
  | .operand .start | .firstArgument => .error (.unterminated .operand)
  | .operand (.binary o) => .error (.missingOperand o.symbol)
  | .operand (.sign o) => .error (.missingOperand o.binary.symbol)
  | .qualifier _ => .error (.unterminated .qualifiedName)
  | .memberName _ => .error (.unterminated .memberName)
  | .bareName name => s.finish (.property none name)
  | .qualifiedName q name => s.finish (.property (some q) name)
  | .finished e => s.finish e

end Unfinished

variable [Number K]

/-- The formula that a list of tokens spells out. -/
def parseTokens (tokens : List (Token K)) : Except FormulaError (Expr K) :=
  if tokens.isEmpty then .error .empty
  else do
    let s ← tokens.foldlM Unfinished.next Unfinished.start
    s.result

/-- The formula that a text spells out. -/
def parse (table : Shorthands) (text : String) : Except FormulaError (Expr K) := do
  let tokens ← tokenize table text
  parseTokens tokens

end Loadout.Formula
