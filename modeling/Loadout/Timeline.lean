import Loadout.Json.Decode
import Loadout.Sorting

/-!
# Timelines

A timeline lists actions and windows in which buffs are active. Each item lies on a layer. A buff
reaches the actions on its own layer and on those below; on one layer a window ends where the next
one starts. Windows are looked at once, at the start of an action.
-/

namespace Loadout

structure ActionItem (K : Type) where
  name : String
  start : K
  duration : K
  layer : Nat

structure BuffItem (K : Type) where
  name : String
  level : Option Nat
  start : K
  duration : K
  layer : Nat

inductive TimelineItem (K : Type)
  | action (a : ActionItem K)
  | buff (b : BuffItem K)

namespace TimelineItem

variable {K : Type} [Number K]

/-- The document without the member that says which kind of item it is, and that kind. A list has
the kind in front. -/
def kindOf? : Json K → Option (String × Json K)
  | .obj members => do
    let rest := members.filter fun m => m.1 != "kind"
    match members.filter fun m => m.1 == "kind" with
    | [(_, .str kind)] => some (kind, .obj rest)
    | _ => none
  | .arr (.str kind :: rest) => some (kind, .arr rest)
  | _ => none

/-- The item that a document describes. It lies in a list, and the list in a container. -/
def ofJson? (j : Json K) : Option (TimelineItem K) := do
  let j ← j.whole? 2
  let (kind, j) ← kindOf? j
  if kind == "action" then
    let m ← j.asRecord? ["name", "start", "duration", "layer"]
    return .action {
      name := ← m.required "name" Json.asString?
      start := ← m.required "start" Json.asNumber?
      duration := ← m.withDefault "duration" Json.asNumber? 0.0
      layer := ← m.withDefault "layer" Json.asWord? 0 }
  else if kind == "buff" then
    let m ← j.asRecord? ["name", "level", "start", "duration", "layer"]
    return .buff {
      name := ← m.required "name" Json.asString?
      level := ← m.optional "level" Json.asWord?
      start := ← m.required "start" Json.asNumber?
      duration := ← m.required "duration" Json.asNumber?
      layer := ← m.withDefault "layer" Json.asWord? 0 }
  else none

def toJson : TimelineItem K → Json K
  | action a => .obj [("kind", .str "action"), ("name", .str a.name), ("start", .ofNumber a.start),
      ("duration", .ofNumber a.duration), ("layer", .nat a.layer)]
  | buff b => .obj [("kind", .str "buff"), ("name", .str b.name),
      ("level", .ofOption .nat b.level), ("start", .ofNumber b.start),
      ("duration", .ofNumber b.duration), ("layer", .nat b.layer)]

end TimelineItem

structure Timeline (K : Type) where
  items : List (TimelineItem K)

namespace Timeline

variable {K : Type} [Number K]

def ofJson? (j : Json K) : Option (Timeline K) :=
  (j.asList? TimelineItem.ofJson?).map fun items => ⟨items⟩

def toJson (t : Timeline K) : Json K := .ofList TimelineItem.toJson t.items

def buffs (t : Timeline K) : List (BuffItem K) :=
  t.items.filterMap fun
    | .buff b => some b
    | .action _ => none

/-- The actions in the order of their starts; those with one start stay in the order in which they
are listed. -/
def actions (t : Timeline K) : List (ActionItem K) :=
  sortBy (fun a b => Number.before a.start b.start) <| t.items.filterMap fun
    | .action a => some a
    | .buff _ => none

/-- The start of the next window on the layer of a buff. -/
def nextStart? (buffs : List (BuffItem K)) (b : BuffItem K) : Option K :=
  match (buffs.filter fun c => c.layer == b.layer && b.start < c.start).map (·.start) with
  | [] => none
  | x :: rest => some (rest.foldl Number.least x)

/-- The end that a buff has by itself. A duration that leads to no number does not end. -/
def ownEnd (b : BuffItem K) : K :=
  let e := b.start + b.duration
  if e == e then e else Number.infinity

/-- The end of the window of a buff: its own, or the start of the next one. -/
def windowEnd (buffs : List (BuffItem K)) (b : BuffItem K) : K :=
  match nextStart? buffs b with
  | none => ownEnd b
  | some next => Number.least (ownEnd b) next

/-- Whether a buff reaches an action on a layer that starts at a time. -/
def reaches (buffs : List (BuffItem K)) (layer : Nat) (time : K) (b : BuffItem K) : Bool :=
  !(b.layer < layer) && b.start ≤ time && time < windowEnd buffs b

/-- The buffs that reach an action on a layer that starts at a time. -/
def activeBuffs (t : Timeline K) (layer : Nat) (time : K) : List (BuffItem K) :=
  t.buffs.filter (reaches t.buffs layer time)

end Timeline

/-- How many attacks a weapon gets off in a duration when it fires `rate` times a second and reloads
whenever its magazine is empty; at least one. -/
def attackCount {K : Type} [Number K] (duration rate magazine reload : K) : K :=
  if duration ≤ 0.0 || rate ≤ 0.0 then 1.0
  else if magazine ≤ 0.0 then Number.greatest (Number.floor (duration * rate)) 1.0
  else
    let cycle := magazine / rate + Number.greatest reload 0.0
    let full := Number.floor (duration / cycle)
    let remaining := duration - full * cycle
    let attacks := full * magazine + Number.least magazine (Number.floor (remaining * rate))
    Number.greatest attacks 1.0

end Loadout
