import Loadout.Json.Basic
import Loadout.Number.Decimal

/-!
# Writing a document

A document is written on one line without blanks, in one of two ways:

* `write` writes a real number as a string of twelve significant digits (`Decimal.scientific`), so
  that what is written does not depend on the last binary digits of a calculation;
* `spell` writes it as a number with all the digits that it needs (`Decimal.literal`), so that the
  text is a document again.
-/

namespace Loadout.Json

/-- The significant digits of a real number. -/
def significantDigits : Nat := 12

/-- A hexadecimal digit. -/
def hexDigit (n : Nat) : Char := if n < 10 then Char.ofNat (48 + n) else Char.ofNat (87 + n)

/-- A character inside a string: quote, backslash and control characters are escaped. -/
def escapeInto (out : String) (c : Char) : String :=
  if c == '"' then out ++ "\\\""
  else if c == '\\' then out ++ "\\\\"
  else if c.toNat < 0x20 then
    ((out ++ "\\u00").push (hexDigit (c.toNat / 16))).push (hexDigit (c.toNat % 16))
  else out.push c

/-- A string in quotes. -/
def quoteInto (out : String) (s : String) : String :=
  (s.toList.foldl escapeInto (out.push '"')).push '"'

mutual

/-- Writes a document behind what is already written, given how to write a real number. -/
def writeInto (real : String → Float → String) (out : String) : Json Float → String
  | null | illegible => out ++ "null"
  | bool b => out ++ (if b then "true" else "false")
  | int i => out ++ toString i
  | .real x => real out x
  | str s => quoteInto out s
  | arr items => (writeItems real (out.push '[') true items).push ']'
  | obj members => (writeMembers real (out.push '\x7b') true members).push '\x7d'

def writeItems (real : String → Float → String) (out : String) (first : Bool) :
    List (Json Float) → String
  | [] => out
  | j :: rest =>
    writeItems real (j.writeInto real (if first then out else out.push ',')) false rest

def writeMembers (real : String → Float → String) (out : String) (first : Bool) :
    List (String × Json Float) → String
  | [] => out
  | (name, j) :: rest =>
    let out := if first then out else out.push ','
    writeMembers real (writeInto real ((quoteInto out name).push ':') j) false rest

end

/-- The text of a document with its real numbers rounded. -/
def write (j : Json Float) : String :=
  writeInto (fun out x => quoteInto out (Decimal.scientific significantDigits x)) "" j

/-- The text of a document with its real numbers in full. -/
def spell (j : Json Float) : String :=
  writeInto (fun out x => out ++ Decimal.literal x) "" j

end Loadout.Json
