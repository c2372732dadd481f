import Loadout.Build.Options
import Loadout.Database
import Loadout.Text.CharClass

/-!
# Loadout codes

A code writes the ids of a loadout one after another, each as four digits of base 36: the character,
the melee weapon, the ranged weapon, then a fixed number of slots for the mods of each category. A
slot without a mod is four zeros, so a mod whose id is zero is not seen when a code is read.
-/

namespace Loadout

/-- The ids of a loadout. -/
structure LoadoutCode where
  character : Nat
  melee : Nat
  ranged : Nat
  mods : PerCategory (List Nat)
deriving DecidableEq

namespace LoadoutCode

/-! ## Ids as digits -/

/-- The number of digits of an id. -/
def width : Nat := 4

/-- The number of values of a digit. -/
def radix : Nat := 36

/-- The largest id that has enough digits. -/
def maxId : Nat := 1679615

/-- The number of ids in a code. -/
def slots : Nat := 31

/-- The character of a digit: ten numerals, then the capital letters. -/
def digitChar (d : Nat) : Char :=
  if d < 10 then Char.ofNat (48 + d) else Char.ofNat (55 + d)

/-- The digit that a character stands for. -/
def digitValue? (c : Char) : Option Nat :=
  if c.isDigit then some (c.toNat - 48)
  else if c.isUpper then some (c.toNat - 55)
  else none

/-- The lowest `count` digits of a number, the highest of them first. -/
def digits : (count : Nat) → Nat → List Char
  | 0, _ => []
  | count + 1, n => digits count (n / radix) ++ [digitChar (n % radix)]

def encodeId (id : Nat) : Except BuildError (List Char) :=
  if maxId < id then .error (.invalidCode (.wideId id)) else .ok (digits width id)

/-- The number with given digits. -/
def ofDigits (values : List Nat) : Nat := values.foldl (fun n d => n * radix + d) 0

/-- The id in a slot. -/
def decodeId (chunk : List Char) (slot : Nat) : Except BuildError Nat :=
  match chunk.mapM digitValue? with
  | some values => .ok (ofDigits values)
  | none => .error (.invalidCode (.invalidDigits (String.ofList chunk) slot))

/-! ## Codes -/

/-- Ids in the slots of a category, zero where there is none. -/
def fill (c : ModCategory) (ids : List Nat) : List Nat :=
  ids ++ List.replicate (c.cap - ids.length) 0

/-- The digits of the mods of a category. -/
def encodeMods (c : ModCategory) (ids : List Nat) : Except BuildError (List Char) := do
  if c.cap < ids.length then throw (.invalidCode (.tooManyMods c))
  let parts ← (fill c ids).mapM encodeId
  return parts.flatten

/-- The text of a code. -/
def encode (code : LoadoutCode) : Except BuildError String := do
  let heads ← [code.character, code.melee, code.ranged].mapM encodeId
  let mods ← ModCategory.all.mapM fun c => encodeMods c (code.mods.get c)
  return String.ofList (heads.flatten ++ mods.flatten)

/-- A text without the white space around it. -/
def trim (text : List Char) : List Char :=
  ((text.dropWhile Text.isBlank).reverse.dropWhile Text.isBlank).reverse

/-- A list in pieces of the width of an id. -/
def chunks : (count : Nat) → List Char → List (List Char)
  | 0, _ => []
  | count + 1, text => text.take width :: chunks count (text.drop width)

/-- The mods in the slots of each category, in the order of slots. -/
def takeMods (ids : List Nat) : PerCategory (List Nat) :=
  let mods (start cap : Nat) : List Nat := ((ids.drop start).take cap).filter (· != 0)
  { character := mods 0 ModCategory.character.cap
    melee := mods 8 ModCategory.melee.cap
    ranged := mods 16 ModCategory.ranged.cap
    resonance := mods 24 ModCategory.resonance.cap }

/-- The code that a text spells out. White space around it is ignored. -/
def decode (text : String) : Except BuildError LoadoutCode := do
  let text := trim text.toList
  if !text.all (·.toNat < 128) || text.length != slots * width then
    throw (.invalidCode (.wrongLength text.length))
  let ids ← (chunks slots text).zipIdx.mapM fun (chunk, slot) => decodeId chunk slot
  return {
    character := ids.headD 0
    melee := (ids.drop 1).headD 0
    ranged := (ids.drop 2).headD 0
    mods := takeMods (ids.drop 3) }

/-- The options for a loadout with these ids, everything else at its default. -/
def toOptions {K : Type} [Number K] (code : LoadoutCode) (d : Database K) :
    Except BuildError (BuildOptions K) := do
  let character ← d.characterById code.character
  let melee ← d.weaponById code.melee
  let ranged ← d.weaponById code.ranged
  return { (BuildOptions.default : BuildOptions K) with
    character := character.name
    melee := melee.name
    ranged := ranged.name
    mods := code.mods.map fun ids => ids.map fun id => ⟨id, none⟩ }

end LoadoutCode

end Loadout
