/-!
# Dependency graphs

Conditions that read what others write are checked after them. The graph has a node for each
condition, in the order of insertion, and an edge from each dependency to what depends on it, the
newest edge first.

* `cycle?` looks for a loop by depth-first search and reports the labels on it, the first one
  repeated at the end;
* `order` lists the nodes in the reverse of the order in which a depth-first search leaves them,
  which puts dependencies first when there is no loop;
* `checkOrder` is that order, or the order of insertion together with a loop.

A search never goes deeper than there are nodes, so the number of nodes bounds its recursion.
-/

namespace Loadout

structure DependencyGraph where
  nodes : List (Nat × String)
  edges : List (Nat × Nat)

namespace DependencyGraph

def empty : DependencyGraph := ⟨[], []⟩

def keys (g : DependencyGraph) : List Nat := g.nodes.map Prod.fst

def contains (g : DependencyGraph) (key : Nat) : Bool := g.keys.contains key

def size (g : DependencyGraph) : Nat := g.nodes.length

/-- The place of a node in the order of insertion. -/
def index (g : DependencyGraph) (key : Nat) : Nat := g.keys.idxOf key

/-- Adds a node unless it is there. -/
def addNode (g : DependencyGraph) (key : Nat) (label : String) : DependencyGraph :=
  if g.contains key then g else { g with nodes := g.nodes ++ [(key, label)] }

/-- Records that one node depends on another. Nodes that are not there yet are labelled by their
key, and an edge is recorded once. -/
def addEdge (g : DependencyGraph) (dependent dependency : Nat) : DependencyGraph :=
  let g := (g.addNode dependent (toString dependent)).addNode dependency (toString dependency)
  if g.edges.contains (dependency, dependent) then g
  else { g with edges := (dependency, dependent) :: g.edges }

/-- What depends on a node, the newest edge first. -/
def dependents (g : DependencyGraph) (key : Nat) : List Nat :=
  (g.edges.filter fun e => e.1 == key).map Prod.snd

def label (g : DependencyGraph) (key : Nat) : String :=
  match g.nodes.find? fun n => n.1 == key with
  | some (_, label) => label
  | none => toString key

/-! ## Loops -/

/-- The loop that an edge back to `key` closes. The path that led there lists its last node
first. -/
def loopAt (key : Nat) (path : List Nat) : List Nat :=
  key :: (path.takeWhile (· != key)).reverse ++ [key]

/-- Searches from a node that was not visited before. Gives the visited nodes, or a loop. -/
def visit (g : DependencyGraph) : (depth : Nat) → (path visited : List Nat) → (key : Nat) →
    Except (List Nat) (List Nat)
  | 0, _, visited, _ => .ok visited
  | depth + 1, path, visited, key =>
    (g.dependents key).foldlM (fun visited next =>
      if !visited.contains next then g.visit depth (key :: path) visited next
      else if (key :: path).contains next then .error (loopAt next (key :: path))
      else .ok visited) (key :: visited)

/-- Searches from every node in turn. -/
def search (g : DependencyGraph) : Except (List Nat) (List Nat) :=
  g.keys.foldlM (fun visited key =>
    if visited.contains key then .ok visited else g.visit g.size [] visited key) []

/-- The labels on a loop, if there is one. -/
def cycle? (g : DependencyGraph) : Option (List String) :=
  match g.search with
  | .ok _ => none
  | .error keys => some (keys.map g.label)

/-! ## Order -/

/-- The nodes that a search has seen, and those that it has left, the last one first. -/
structure Progress where
  seen : List Nat
  left : List Nat

/-- Searches from a node, the oldest edge first, unless the node was seen before. -/
def leave (g : DependencyGraph) : (depth : Nat) → Progress → (key : Nat) → Progress
  | 0, p, _ => p
  | depth + 1, p, key =>
    if p.seen.contains key then p
    else
      let p' := (g.dependents key).reverse.foldl (g.leave depth) { p with seen := key :: p.seen }
      { p' with left := key :: p'.left }

/-- The nodes, each before what a search from it reaches. -/
def order (g : DependencyGraph) : List Nat :=
  (g.keys.foldl (g.leave g.size) ⟨[], []⟩).left

/-- Whether one node stands before another in a list. -/
def precedes (order : List Nat) (a b : Nat) : Bool := (order.takeWhile (· != b)).contains a

/-- An edge that an order goes against. -/
def breach? (g : DependencyGraph) (order : List Nat) : Option (Nat × Nat) :=
  g.edges.find? fun e => !precedes order e.1 e.2

/-- The nodes with every dependency before what depends on it, or the labels on a loop. -/
def topologicalOrder (g : DependencyGraph) : Except (List String) (List Nat) :=
  match g.cycle? with
  | some labels => .error labels
  | none =>
    match g.breach? g.order with
    | none => .ok g.order
    | some edge => .error [g.label edge.2]

/-- The order in which to check the nodes, and the loop for which it is only the order of
insertion. -/
def checkOrder (g : DependencyGraph) : List Nat × Option (List String) :=
  match g.topologicalOrder with
  | .ok order => (order, none)
  | .error labels => (g.keys, some labels)

end DependencyGraph

end Loadout
