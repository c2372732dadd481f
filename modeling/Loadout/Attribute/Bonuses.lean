import Loadout.Attribute.StatKey
import Loadout.Json.Decode

/-!
# Tables of bonuses

A table of bonuses gives an amount per key. Names that are no key of the vocabulary are kept beside
the keys as extras, under the name as written. In data a table is one flat object from names to
numbers; several names of one key add up.
-/

namespace Loadout

/-- Amounts by key, and by name for what is not in the vocabulary. -/
structure Bonuses (K : Type) where
  entries : Table StatKey K
  extra : Table String K

namespace Bonuses

variable {K : Type} [Number K]

def empty : Bonuses K := ⟨.empty, .empty⟩

instance : Inhabited (Bonuses K) := ⟨empty⟩

/-- Adds an amount to what a table holds under a key. -/
def addTo {κ : Type} [Key κ] (t : Table κ K) (k : κ) (amount : K) : Table κ K :=
  t.alter k fun old => old.getD 0.0 + amount

theorem find?_addTo {κ : Type} [Key κ] [DecidableEq κ] (t : Table κ K) (k k' : κ) (x : K) :
    (addTo t k x).find? k' = if k = k' then some ((t.find? k).getD 0.0 + x) else t.find? k' :=
  t.find?_alter k k' _

def add (b : Bonuses K) (k : StatKey) (amount : K) : Bonuses K :=
  { b with entries := addTo b.entries k amount }

def addExtra (b : Bonuses K) (name : String) (amount : K) : Bonuses K :=
  { b with extra := addTo b.extra name amount }

/-- Adds an amount under a name. -/
def addNamed (b : Bonuses K) (name : String) (amount : K) : Bonuses K :=
  match StatKey.parse? name with
  | some k => b.add k amount
  | none => b.addExtra name amount

def get (b : Bonuses K) (k : StatKey) : K := b.entries.findD k 0.0

/-- The amount for an attribute of the character. -/
def character (b : Bonuses K) (a : Attribute) : K := b.get (.character a)

def getExtra (b : Bonuses K) (name : String) : K := b.extra.findD name 0.0

def isEmpty (b : Bonuses K) : Bool := b.entries.isEmpty && b.extra.isEmpty

/-- The attributes of the character that the table changes. -/
def attributes (b : Bonuses K) : List Attribute :=
  b.entries.keys.filterMap fun
    | .character a => some a
    | .weapon .. => none

/-- Every amount times a factor. The extras named in `whole` are rounded afterwards. -/
def scale (b : Bonuses K) (factor : K) (whole : List String) : Bonuses K where
  entries := b.entries.map fun _ x => x * factor
  extra := b.extra.map fun name x =>
    if whole.contains name then Number.round (x * factor) else x * factor

/-- Changes one amount, if the key is present. -/
def modify (b : Bonuses K) (k : StatKey) (f : K → K) : Bonuses K :=
  { b with entries := b.entries.map fun k' x => if k' = k then f x else x }

/-- Adds every amount of another table. -/
def merge (b other : Bonuses K) : Bonuses K where
  entries := other.entries.entries.foldl (fun t e => addTo t e.1 e.2) b.entries
  extra := other.extra.entries.foldl (fun t e => addTo t e.1 e.2) b.extra

/-- Two tables hold equal amounts in the same places. -/
def equals (b c : Bonuses K) : Bool :=
  b.entries.entries == c.entries.entries && b.extra.entries == c.extra.entries

/-! ## The flat form -/

/-- The table that a map from names to amounts describes. -/
def ofNames (names : Table String K) : Bonuses K :=
  names.entries.foldl (fun b e => b.addNamed e.1 e.2) empty

/-- The map from names to amounts: extras, then every key under its own name. -/
def toNames (b : Bonuses K) : Table String K :=
  b.entries.entries.foldl (fun t e => t.insert e.1.text e.2) b.extra

def ofJson? (j : Json K) : Option (Bonuses K) :=
  (j.asMembers? Json.asNumber?).map fun members => ofNames (.ofList members)

def toJson (b : Bonuses K) : Json K :=
  .obj (b.toNames.entries.map fun e => (e.1, .ofNumber e.2))

end Bonuses

end Loadout
