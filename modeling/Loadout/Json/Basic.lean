import Loadout.Number

/-!
# Documents

The values of the JSON data format. A number written without fraction or exponent stays a whole
number as long as it fits 64 bits; every other number is one of the numbers of the calculation.
An object keeps its members in the order in which they were written, repetitions included.

A text may keep to the format and still hold a value that stands for nothing. Such a value does no
harm where nobody reads it, so it has a document of its own, which every reader turns down.
-/

namespace Loadout

/-- A document, with the numbers of the calculation as its reals. What is illegible is a number out
of range, a string with half of a surrogate pair, or an object with such a string as a name. -/
inductive Json (K : Type)
  | null
  | bool (b : Bool)
  | int (i : Int)
  | real (x : K)
  | str (s : String)
  | arr (items : List (Json K))
  | obj (members : List (String × Json K))
  | illegible

namespace Json

variable {K : Type}

instance : Inhabited (Json K) := ⟨null⟩

/-- A whole number that is not negative. -/
def nat (n : Nat) : Json K := int n

/-- A number, or null in place of one that is not finite, which the format cannot write. -/
def ofNumber [Number K] (x : K) : Json K := if Number.finite x then real x else null

/-- A value that may be absent, which is written as null. -/
def ofOption {α : Type} (f : α → Json K) : Option α → Json K
  | none => null
  | some a => f a

/-- A list of values. -/
def ofList {α : Type} (f : α → Json K) (xs : List α) : Json K := arr (xs.map f)

/-- The last member of an object with a given name. -/
def member? (j : Json K) (name : String) : Option (Json K) :=
  match j with
  | obj members => (members.reverse.find? (·.1 == name)).map Prod.snd
  | _ => none

/-! ## One member per name -/

/-- The members without those that a later one of the same name replaces. -/
def lastOfEach : List (String × Json K) → List (String × Json K)
  | [] => []
  | (name, j) :: rest =>
    let rest' := lastOfEach rest
    if rest'.any (·.1 == name) then rest' else (name, j) :: rest'

mutual

/-- The document in which every object keeps one member per name, the last one written. -/
def distinct : Json K → Json K
  | null => null
  | bool b => bool b
  | int i => int i
  | real x => real x
  | str s => str s
  | arr items => arr (distinctItems items)
  | obj members => obj (lastOfEach (distinctMembers members))
  | illegible => illegible

def distinctItems : List (Json K) → List (Json K)
  | [] => []
  | j :: rest => j.distinct :: distinctItems rest

def distinctMembers : List (String × Json K) → List (String × Json K)
  | [] => []
  | (name, j) :: rest => (name, j.distinct) :: distinctMembers rest

end

/-! ## Reading a value whole -/

mutual

/-- Whether nothing in a document is illegible and its containers nest at most `depth` deep. -/
def legible (depth : Nat) : Json K → Bool
  | arr items => 0 < depth && legibleItems (depth - 1) items
  | obj members => 0 < depth && legibleMembers (depth - 1) members
  | illegible => false
  | _ => true

def legibleItems (depth : Nat) : List (Json K) → Bool
  | [] => true
  | j :: rest => j.legible depth && legibleItems depth rest

def legibleMembers (depth : Nat) : List (String × Json K) → Bool
  | [] => true
  | (_, j) :: rest => j.legible depth && legibleMembers depth rest

end

end Json

end Loadout
