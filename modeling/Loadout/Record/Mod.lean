import Loadout.Attribute.Bonuses

/-!
# Mods as stored

A mod goes into a slot of its category. It may be restricted to an element or to a class of
weapons, it may exclude other mods of its series, and some of its bonuses may hold only under
conditions.
-/

namespace Loadout

/-! ## Quality and category -/

inductive Quality
  | gold
  | purple
  | blue
  | green
  | white
deriving DecidableEq

namespace Quality

def all : List Quality := [gold, purple, blue, green, white]

def name : Quality → String
  | gold => "金"
  | purple => "紫"
  | blue => "蓝"
  | green => "绿"
  | white => "白"

def ofName? (s : String) : Option Quality := all.find? fun q => q.name == s

/-- The highest rank that a mod of this quality reaches. -/
def maxRank : Quality → Nat
  | gold => 10
  | purple | blue => 5
  | green | white => 3

end Quality

inductive ModCategory
  | character
  | melee
  | ranged
  | resonance
deriving DecidableEq

namespace ModCategory

/-- Every category, in the order of slots. -/
def all : List ModCategory := [character, melee, ranged, resonance]

def name : ModCategory → String
  | character => "角色"
  | melee => "近战"
  | ranged => "远程"
  | resonance => "同律"

def ofName? (s : String) : Option ModCategory := all.find? fun c => c.name == s

/-- The number of slots. -/
def cap : ModCategory → Nat
  | resonance => 4
  | character | melee | ranged => 8

def ofJson? {K : Type} [Number K] (j : Json K) : Option ModCategory := j.asChoice?.bind ofName?

theorem mem_all (c : ModCategory) : c ∈ all := by
  cases c <;> decide

end ModCategory

/-- A value for every category. -/
structure PerCategory (α : Type) where
  character : α
  melee : α
  ranged : α
  resonance : α
deriving DecidableEq

namespace PerCategory

variable {α β : Type}

/-- The same value everywhere. -/
def same (a : α) : PerCategory α := ⟨a, a, a, a⟩

def get (p : PerCategory α) : ModCategory → α
  | .character => p.character
  | .melee => p.melee
  | .ranged => p.ranged
  | .resonance => p.resonance

def set (p : PerCategory α) (c : ModCategory) (a : α) : PerCategory α :=
  match c with
  | .character => { p with character := a }
  | .melee => { p with melee := a }
  | .ranged => { p with ranged := a }
  | .resonance => { p with resonance := a }

def map (f : α → β) (p : PerCategory α) : PerCategory β :=
  ⟨f p.character, f p.melee, f p.ranged, f p.resonance⟩

/-- The values in the order of categories. -/
def toList (p : PerCategory α) : List α := ModCategory.all.map p.get

@[simp] theorem get_set_self (p : PerCategory α) (c : ModCategory) (a : α) :
    (p.set c a).get c = a := by
  cases c <;> rfl

theorem get_set_of_ne (p : PerCategory α) {c d : ModCategory} (h : c ≠ d) (a : α) :
    (p.set c a).get d = p.get d := by
  cases c <;> cases d <;> first | rfl | exact absurd rfl h

@[simp] theorem get_map (f : α → β) (p : PerCategory α) (c : ModCategory) :
    (p.map f).get c = f (p.get c) := by
  cases c <;> rfl

@[simp] theorem get_same (a : α) (c : ModCategory) : (same a).get c = a := by
  cases c <;> rfl

theorem ext_get {p q : PerCategory α} (h : ∀ c, p.get c = q.get c) : p = q := by
  obtain ⟨a, b, c, d⟩ := p
  obtain ⟨a', b', c', d'⟩ := q
  obtain rfl : a = a' := h .character
  obtain rfl : b = b' := h .melee
  obtain rfl : c = c' := h .ranged
  obtain rfl : d = d' := h .resonance
  rfl

end PerCategory

/-! ## Conditions -/

inductive Comparison
  | eq
  | gt
  | ge
  | lt
  | le
deriving DecidableEq

namespace Comparison

def all : List Comparison := [eq, gt, ge, lt, le]

def symbol : Comparison → String
  | eq => "="
  | gt => ">"
  | ge => ">="
  | lt => "<"
  | le => "<="

def ofSymbol? (s : String) : Option Comparison := all.find? fun c => c.symbol == s

/-- Whether two numbers compare this way; equality allows for rounding. -/
def holds {K : Type} [Number K] (c : Comparison) (x y : K) : Bool :=
  match c with
  | eq => Number.close x y
  | gt => decide (y < x)
  | ge => decide (y ≤ x)
  | lt => decide (x < y)
  | le => decide (x ≤ y)

end Comparison

/-- A condition as written: a subject, a comparison and a number. -/
structure ConditionRecord (K : Type) where
  subject : String
  comparison : Comparison
  value : K

namespace ConditionRecord

variable {K : Type} [Number K]

def ofJson? (j : Json K) : Option (ConditionRecord K) :=
  match j with
  | .arr [subject, comparison, value] => do
    return {
      subject := ← subject.asString?
      comparison := ← comparison.asChoice?.bind Comparison.ofSymbol?
      value := ← value.asNumber? }
  | _ => none

def toJson (c : ConditionRecord K) : Json K :=
  .arr [.str c.subject, .str c.comparison.symbol, .ofNumber c.value]

end ConditionRecord

/-- Bonuses that hold while every one of some conditions does. -/
structure ConditionalRecord (K : Type) where
  conditions : List (ConditionRecord K)
  bonuses : Bonuses K

namespace ConditionalRecord

variable {K : Type} [Number K]

def ofJson? (j : Json K) : Option (ConditionalRecord K) := do
  let m ← j.asRecord? ["conditions", "bonuses"]
  return {
    conditions := ← m.required "conditions" (Json.asList? ConditionRecord.ofJson?)
    bonuses := ← m.required "bonuses" Bonuses.ofJson? }

def toJson (c : ConditionalRecord K) : Json K := .obj [
  ("conditions", .ofList ConditionRecord.toJson c.conditions),
  ("bonuses", c.bonuses.toJson)]

end ConditionalRecord

/-! ## Mods -/

structure ModRecord (K : Type) where
  id : Nat
  name : String
  series : String
  quality : Quality
  tolerance : Int
  category : ModCategory
  polarity : Option String
  /-- The element that the character must have. -/
  element : Option String
  /-- The class that a weapon must have. -/
  restriction : Option String
  /-- Whether the mod excludes other exclusive mods of its series. -/
  exclusive : Bool
  bonuses : Bonuses K
  conditional : Option (ConditionalRecord K)

namespace ModRecord

variable {K : Type}

/-- The name with the series before it. -/
def fullName (m : ModRecord K) : String :=
  if m.series.isEmpty then m.name else m.series ++ "之" ++ m.name

variable [Number K]

def names : List String :=
  ["id", "name", "series", "quality", "tolerance", "category", "polarity", "element",
    "restriction", "exclusive", "bonuses", "conditional"]

def ofJson? (j : Json K) : Option (ModRecord K) := do
  let m ← j.asRecord? names
  return {
    id := ← m.required "id" Json.asWord?
    name := ← m.required "name" Json.asString?
    series := ← m.withDefault "series" Json.asString? ""
    quality := ← m.required "quality" fun j => j.asChoice?.bind Quality.ofName?
    tolerance := ← m.withDefault "tolerance" Json.asInt? 0
    category := ← m.required "category" ModCategory.ofJson?
    polarity := ← m.optional "polarity" Json.asString?
    element := ← m.optional "element" Json.asString?
    restriction := ← m.optional "restriction" Json.asString?
    exclusive := ← m.withDefault "exclusive" Json.asBool? false
    bonuses := ← m.withDefault "bonuses" Bonuses.ofJson? .empty
    conditional := ← m.optional "conditional" ConditionalRecord.ofJson? }

def toJson (m : ModRecord K) : Json K := .obj [
  ("id", .nat m.id),
  ("name", .str m.name),
  ("series", .str m.series),
  ("quality", .str m.quality.name),
  ("tolerance", .int m.tolerance),
  ("category", .str m.category.name),
  ("polarity", .ofOption .str m.polarity),
  ("element", .ofOption .str m.element),
  ("restriction", .ofOption .str m.restriction),
  ("exclusive", .bool m.exclusive),
  ("bonuses", m.bonuses.toJson),
  ("conditional", .ofOption ConditionalRecord.toJson m.conditional)]

end ModRecord

end Loadout
