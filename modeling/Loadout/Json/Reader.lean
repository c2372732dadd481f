import Loadout.Json.Basic

/-!
# Reading a document

Reading goes in two passes, both of which take one step per item and so end with their input.
The first cuts the text into symbols: brackets, separators and scalars. The second puts symbols
together and keeps the containers that are still open on a stack.

The format is read strictly: no comments, no separator before a closing bracket, no leading zero,
nothing after the value. A number out of range and a lone half of a surrogate pair keep to the
format, so they are read, as something illegible.
-/

namespace Loadout.Json

variable {K : Type} [Number K]

/-! ## Numbers -/

/-- The largest whole number of 64 bits. -/
def wordMax : Nat := 0xFFFFFFFFFFFFFFFF

/-- The digits of a number taken into one whole number, which stands for itself times a power of
ten. -/
structure Significand where
  digits : Nat
  exponent : Int
  full : Bool

/-- Takes a digit before the point. One that would not fit 64 bits only raises the exponent, and so
do the digits after it. -/
def Significand.whole (s : Significand) (digit : Nat) : Significand :=
  if !s.full && s.digits * 10 + digit ≤ wordMax then
    { s with digits := s.digits * 10 + digit }
  else
    { s with exponent := s.exponent + 1, full := true }

/-- Takes a digit after the point. One that would not fit is dropped, and so are the digits after
it. -/
def Significand.fraction (s : Significand) (digit : Nat) : Significand :=
  if !s.full && s.digits * 10 + digit ≤ wordMax then
    { s with digits := s.digits * 10 + digit, exponent := s.exponent - 1 }
  else
    { s with full := true }

/-- Multiplies by ten raised to `e`. Steps of 308 keep the powers within the range of binary
floating point; what is outside that range all the same is infinite. -/
def scale (x : K) (e : Int) : K :=
  if h : e.natAbs ≤ 308 then
    let power : K := OfScientific.ofScientific 1 false e.natAbs
    if e < 0 then x / power else x * power
  else if x == 0.0 then x
  else if 0 ≤ e then Number.infinity
  else scale (x / 1e308) (e + 308)
termination_by e.natAbs
decreasing_by omega

/-- The number with a given sign and significand. -/
def ofSignificand (negative : Bool) (s : Significand) : Json K :=
  let magnitude := scale (s.digits : K) s.exponent
  if Number.finite magnitude then real (if negative then -magnitude else magnitude) else illegible

/-- The value of a decimal digit. -/
def digitValue (c : Char) : Nat := c.toNat - '0'.toNat

/-- The number that a run of digits, points, signs and exponent marks stands for. -/
def number? (text : List Char) : Option (Json K) := do
  let negative := text.head? == some '-'
  let text := if negative then text.drop 1 else text
  let whole := text.takeWhile Char.isDigit
  if whole.isEmpty || (whole.head? == some '0' && 1 < whole.length) then none
  let s := whole.foldl (fun s c => s.whole (digitValue c)) ⟨0, 0, false⟩
  match text.dropWhile Char.isDigit with
  | [] =>
    if s.full then some (ofSignificand negative s)
    else if !negative then some (int s.digits)
    else if s.digits = 0 then some (real (-0.0))
    else if s.digits ≤ 0x8000000000000000 then some (int (-s.digits))
    else some (real (-(s.digits : K)))
  | rest =>
    let point := rest.head? == some '.'
    let rest := if point then rest.drop 1 else rest
    let fraction := if point then rest.takeWhile Char.isDigit else []
    let rest := if point then rest.dropWhile Char.isDigit else rest
    if point && fraction.isEmpty then none
    let s := fraction.foldl (fun s c => s.fraction (digitValue c)) { s with full := false }
    match rest with
    | [] => some (ofSignificand negative s)
    | mark :: rest =>
      if mark != 'e' && mark != 'E' then none
      let signed := rest.head? == some '+' || rest.head? == some '-'
      let down := rest.head? == some '-'
      let rest := if signed then rest.drop 1 else rest
      if rest.isEmpty || rest.any (!·.isDigit) then none
      let n : Nat := rest.foldl (fun n c => n * 10 + digitValue c) 0
      let e : Int := s.exponent + (if down then -(n : Int) else n)
      some (ofSignificand negative { s with exponent := e })

/-! ## Strings -/

/-- Whether a code unit is the first half of a surrogate pair. -/
def isHighHalf (unit : Nat) : Bool := 0xD800 ≤ unit && unit < 0xDC00

/-- Whether a code unit is the second half of a surrogate pair. -/
def isLowHalf (unit : Nat) : Bool := 0xDC00 ≤ unit && unit < 0xE000

/-- The characters that code points and halves of pairs spell, last first, put in front of what
comes after them; none if a half is alone. -/
def pairUp? : List Nat → List Char → Option (List Char)
  | [], after => some after
  | [n], after => if isHighHalf n || isLowHalf n then none else some (Char.ofNat n :: after)
  | n :: before :: rest, after =>
    if isLowHalf n then
      if isHighHalf before then
        pairUp? rest (Char.ofNat (0x10000 + (before - 0xD800) * 0x400 + (n - 0xDC00)) :: after)
      else none
    else if isHighHalf n then none
    else pairUp? (before :: rest) (Char.ofNat n :: after)

/-! ## Symbols -/

/-- A symbol. A string has no text when its code units spell none. -/
inductive Symbol (K : Type)
  | openList
  | closeList
  | openObject
  | closeObject
  | comma
  | colon
  | text (s : Option String)
  | scalar (j : Json K)

/-- What the reader of symbols is in the middle of. What was taken so far comes last first; of a
string these are code points and code units. -/
inductive Mode
  | between
  | text (taken : List Nat)
  | escape (taken : List Nat)
  | unit (taken : List Nat) (count value : Nat)
  | number (taken : List Char)
  | word (taken : List Char)

/-- The symbols read so far, last first, and what is being read. -/
structure Scan (K : Type) where
  symbols : List (Symbol K)
  mode : Mode

/-- The characters that may stand between symbols. -/
def isGap (c : Char) : Bool := c == ' ' || c == '\t' || c == '\n' || c == '\r'

/-- The characters that a number may be written with. -/
def isNumberChar (c : Char) : Bool :=
  c.isDigit || c == '.' || c == '-' || c == '+' || c == 'e' || c == 'E'

/-- Begins a symbol. -/
def Scan.start (symbols : List (Symbol K)) (c : Char) : Option (Scan K) :=
  if isGap c then some ⟨symbols, .between⟩
  else if c == '"' then some ⟨symbols, .text []⟩
  else if c.isDigit || c == '-' then some ⟨symbols, .number [c]⟩
  else if c.isLower then some ⟨symbols, .word [c]⟩
  else
    let single (s : Symbol K) : Option (Scan K) := some ⟨s :: symbols, .between⟩
    match c with
    | '[' => single .openList
    | ']' => single .closeList
    | '\x7b' => single .openObject
    | '\x7d' => single .closeObject
    | ',' => single .comma
    | ':' => single .colon
    | _ => none

/-- The value of one of the three words of the format. -/
def word? (w : String) : Option (Json K) :=
  if w == "null" then some null
  else if w == "true" then some (bool true)
  else if w == "false" then some (bool false)
  else none

/-- Ends a number or word that the next character does not continue. -/
def Scan.settle (s : Scan K) : Option (List (Symbol K)) :=
  match s.mode with
  | .between => some s.symbols
  | .number taken => (number? taken.reverse).map (.scalar · :: s.symbols)
  | .word taken => (word? (String.ofList taken.reverse)).map (.scalar · :: s.symbols)
  | _ => none

/-- The value of a hexadecimal digit. -/
def hexValue? (c : Char) : Option Nat :=
  if c.isDigit then some (digitValue c)
  else if 'a' ≤ c && c ≤ 'f' then some (c.toNat - 'a'.toNat + 10)
  else if 'A' ≤ c && c ≤ 'F' then some (c.toNat - 'A'.toNat + 10)
  else none

/-- The character that a letter after a backslash stands for. -/
def escaped? (c : Char) : Option Char :=
  match c with
  | '"' => some '"'
  | '\\' => some '\\'
  | '/' => some '/'
  | 'b' => some '\x08'
  | 'f' => some '\x0c'
  | 'n' => some '\n'
  | 'r' => some '\r'
  | 't' => some '\t'
  | _ => none

/-- Takes one character. -/
def Scan.next (s : Scan K) (c : Char) : Option (Scan K) :=
  let go (mode : Mode) : Option (Scan K) := some ⟨s.symbols, mode⟩
  match s.mode with
  | .between => Scan.start s.symbols c
  | .text taken =>
    if c == '"' then
      some ⟨.text ((pairUp? taken []).map String.ofList) :: s.symbols, .between⟩
    else if c == '\\' then go (.escape taken)
    else if c.toNat < 0x20 then none
    else go (.text (c.toNat :: taken))
  | .escape taken =>
    if c == 'u' then go (.unit taken 0 0)
    else (escaped? c).bind fun e => go (.text (e.toNat :: taken))
  | .unit taken count value =>
    (hexValue? c).bind fun d =>
      let value := value * 16 + d
      if count = 3 then go (.text (value :: taken)) else go (.unit taken (count + 1) value)
  | .number taken =>
    if isNumberChar c then go (.number (c :: taken))
    else s.settle.bind fun symbols => Scan.start symbols c
  | .word taken =>
    if c.isLower then go (.word (c :: taken))
    else s.settle.bind fun symbols => Scan.start symbols c

/-- The symbols of a text. -/
def symbols? (text : String) : Option (List (Symbol K)) := do
  let s ← text.toList.foldlM Scan.next ⟨[], .between⟩
  let symbols ← s.settle
  return symbols.reverse

/-! ## Putting symbols together -/

/-- The members of an object as they are written, last first. A name may have no text. -/
abbrev Written (K : Type) := List (Option String × Json K)

/-- The object with the members that were written. -/
def ofWritten (members : Written K) : Json K :=
  match members.reverse.mapM fun (name, j) => name.map (·, j) with
  | some members => obj members
  | none => illegible

/-- A container that is still open, with what it holds so far, last first. -/
inductive Open (K : Type)
  | list (items : List (Json K))
  | object (members : Written K) (name : Option String)

/-- What may come next. -/
inductive Expected (K : Type)
  | value
  | valueOrClose
  | nameOrClose (members : Written K)
  | name (members : Written K)
  | colon
  | commaOrClose
  | nothing (j : Json K)

/-- The open containers, innermost first, and what may come next. After a comma the container is
on the stack; an object whose next name has not been read yet is with the expectation. -/
structure Assembly (K : Type) where
  stack : List (Open K)
  expected : Expected K

namespace Assembly

/-- Puts a finished value where it belongs. -/
def put (stack : List (Open K)) (j : Json K) : Assembly K :=
  match stack with
  | [] => ⟨[], .nothing j⟩
  | .list items :: rest => ⟨.list (j :: items) :: rest, .commaOrClose⟩
  | .object members name :: rest => ⟨.object ((name, j) :: members) name :: rest, .commaOrClose⟩

/-- Begins a value. -/
def begin? (stack : List (Open K)) : Symbol K → Option (Assembly K)
  | .openList => some ⟨.list [] :: stack, .valueOrClose⟩
  | .openObject => some ⟨stack, .nameOrClose []⟩
  | .text (some s) => some (put stack (str s))
  | .text none => some (put stack illegible)
  | .scalar j => some (put stack j)
  | _ => none

/-- Takes one symbol. -/
def next (a : Assembly K) (s : Symbol K) : Option (Assembly K) :=
  match a.expected, s with
  | .valueOrClose, .closeList =>
    match a.stack with
    | .list items :: rest => some (put rest (arr items.reverse))
    | _ => none
  | .value, s | .valueOrClose, s => begin? a.stack s
  | .nameOrClose members, .closeObject => some (put a.stack (ofWritten members))
  | .nameOrClose members, .text name | .name members, .text name =>
    some ⟨.object members name :: a.stack, .colon⟩
  | .colon, .colon => some ⟨a.stack, .value⟩
  | .commaOrClose, .comma =>
    match a.stack with
    | .list items :: rest => some ⟨.list items :: rest, .value⟩
    | .object members _ :: rest => some ⟨rest, .name members⟩
    | [] => none
  | .commaOrClose, .closeList =>
    match a.stack with
    | .list items :: rest => some (put rest (arr items.reverse))
    | _ => none
  | .commaOrClose, .closeObject =>
    match a.stack with
    | .object members _ :: rest => some (put rest (ofWritten members))
    | _ => none
  | _, _ => none

end Assembly

/-- The document that a text spells out, if it does. -/
def parse? (text : String) : Option (Json K) := do
  let symbols ← symbols? text
  let a ← symbols.foldlM Assembly.next ⟨[], .value⟩
  match a.expected with
  | .nothing j => some j
  | _ => none

end Loadout.Json
