import Loadout.Json.Reader

/-!
# Taking a document apart

Each reader here takes a document and gives a value, or nothing when the document has another
shape. They are strict about types: whole numbers do not come from fractions, and null stands only
for a value that may be absent.

A record is written as an object, where members that the record does not know are ignored, or as
the list of its members in their fixed order, where the last ones may be left out if they have
defaults. What is ignored may be illegible and nest to any depth. A record whose kind is one of its
own members is read whole before the kind is known, so there the unknown members count too.
-/

namespace Loadout.Json

variable {K : Type} [Number K] {α β : Type}

/-! ## Scalars -/

def asString? : Json K → Option String
  | str s => some s
  | _ => none

def asBool? : Json K → Option Bool
  | bool b => some b
  | _ => none

/-- A whole number from zero up to a limit. -/
def asNat? (limit : Nat) : Json K → Option Nat
  | int i => if 0 ≤ i && i ≤ limit then some i.natAbs else none
  | _ => none

/-- A whole number of 32 bits without sign. -/
def asWord? : Json K → Option Nat := asNat? 0xFFFFFFFF

/-- A whole number of 64 bits without sign. -/
def asLongWord? : Json K → Option Nat := asNat? 0xFFFFFFFFFFFFFFFF

/-- A whole number of 32 bits with a sign. -/
def asInt? : Json K → Option Int
  | int i => if -0x80000000 ≤ i && i < 0x80000000 then some i else none
  | _ => none

/-- A number of the calculation, written in any way. -/
def asNumber? : Json K → Option K
  | int i => some (Number.ofInt i)
  | real x => some x
  | _ => none

/-- A number reads back unless it is not finite. -/
theorem asNumber?_ofNumber (x : K) :
    (ofNumber x).asNumber? = if Number.finite x then some x else none := by
  unfold ofNumber
  split <;> rfl

/-- The name of a choice that carries no data: a string, or an object whose only member has that
name and no value. -/
def asChoice? : Json K → Option String
  | str s => some s
  | obj [(name, null)] => some name
  | _ => none

/-! ## Containers -/

def asList? (read : Json K → Option α) : Json K → Option (List α)
  | arr items => items.mapM read
  | _ => none

/-- A value or null. -/
def asOption? (read : Json K → Option α) : Json K → Option (Option α)
  | null => some none
  | j => (read j).map some

/-- The members of an object with their values read; a name may repeat. -/
def asMembers? (read : Json K → Option α) : Json K → Option (List (String × α))
  | obj members => members.mapM fun (name, j) => (read j).map (name, ·)
  | _ => none

/-! ## Records -/

/-- How deep containers may nest where a value is read whole, the outermost one of the document
included. -/
def deepest : Nat := 127

/-- A value that is read whole, with `outside` containers around it. -/
def whole? (outside : Nat) (j : Json K) : Option (Json K) :=
  if j.legible (deepest - outside) then some j else none

/-- The members of a record that are present. -/
structure Members (K : Type) where
  present : List (String × Json K)

/-- The members of a record with the given names, none of which may repeat. -/
def asRecord? (names : List String) : Json K → Option (Members K)
  | obj members =>
    if names.all fun name => (members.filter (·.1 == name)).length ≤ 1 then some ⟨members⟩
    else none
  | arr items => if items.length ≤ names.length then some ⟨names.zip items⟩ else none
  | _ => none

namespace Members

def find? (m : Members K) (name : String) : Option (Json K) :=
  (m.present.find? (·.1 == name)).map Prod.snd

/-- A member that must be present. -/
def required (m : Members K) (name : String) (read : Json K → Option α) : Option α :=
  (m.find? name).bind read

/-- A member with a default. -/
def withDefault (m : Members K) (name : String) (read : Json K → Option α) (default : α) :
    Option α :=
  match m.find? name with
  | none => some default
  | some j => read j

/-- A member that may be absent or null. -/
def optional (m : Members K) (name : String) (read : Json K → Option α) : Option (Option α) :=
  m.withDefault name (asOption? read) none

end Members

end Loadout.Json
