import Loadout.Proofs.DependencyGraph.Detection
import Loadout.Proofs.DependencyGraph.StackSearch
import Mathlib.Data.List.Induction

/-!
# Graphs from insertions

A graph is built by adding nodes and edges in any order. A node may be added again, an edge may be
recorded again or name nodes that were not added, and a node may depend on itself.

* `Insertion`, `ofInsertions`: the graphs that can be built;
* `wellFormed_ofInsertions`, `edge_ofInsertions_iff`, `mem_keys_ofInsertions_iff`: what they hold, which
  the order of the insertions does not matter for;
* `checkOrder_ofInsertions`: in which order they are checked.
-/

namespace Loadout.DependencyGraph

/-- A call that builds a graph. -/
inductive Insertion where
  | node (key : Nat) (label : String)
  | edge (dependent dependency : Nat)

/-- The nodes that a call names. -/
def Insertion.keys : Insertion → List Nat
  | node key _ => [key]
  | edge dependent dependency => [dependent, dependency]

def insert (g : DependencyGraph) : Insertion → DependencyGraph
  | .node key label => g.addNode key label
  | .edge dependent dependency => g.addEdge dependent dependency

/-- The graph that some calls build, one after another. -/
def ofInsertions (steps : List Insertion) : DependencyGraph := steps.foldl insert empty

/-! ## What one call adds -/

variable {g : DependencyGraph} {step : Insertion}

theorem WellFormed.insert (h : g.WellFormed) (step : Insertion) : (g.insert step).WellFormed := by
  cases step with
  | node key label => exact h.addNode key label
  | edge dependent dependency => exact h.addEdge dependent dependency

theorem edge_insert_iff {a b : Nat} :
    (g.insert step).Edge a b ↔ g.Edge a b ∨ step = .edge b a := by
  cases step with
  | node key label =>
    have hEdges : (g.addNode key label).Edge a b ↔ g.Edge a b := by
      rw [Edge, edges_addNode, Edge]
    simpa [insert] using hEdges
  | edge dependent dependency =>
    have hSame : (a, b) = (dependency, dependent) ↔ Insertion.edge dependent dependency = .edge b a := by
      constructor
      · rintro ⟨⟩
        rfl
      · rintro ⟨⟩
        rfl
    rw [insert, edge_addEdge, hSame, or_comm]

theorem mem_keys_insert_iff {k : Nat} : k ∈ (g.insert step).keys ↔ k ∈ g.keys ∨ k ∈ step.keys := by
  cases step with
  | node key label => rw [insert, mem_keys_addNode, Insertion.keys, List.mem_singleton]
  | edge dependent dependency =>
    rw [insert, keys, g.nodes_addEdge, ← keys, mem_keys_addNode, mem_keys_addNode, or_assoc,
      Insertion.keys, List.mem_cons, List.mem_singleton]

/-! ## What all calls add -/

/-- What holds of the empty graph, and of a graph with one more call if it holds of the graph before, holds
of the graph that all calls build. It may speak of the calls so far. -/
theorem ofInsertions_induction {motive : DependencyGraph → List Insertion → Prop}
    (hEmpty : motive empty [])
    (hInsert : ∀ g steps step, motive g steps → motive (g.insert step) (steps ++ [step]))
    (steps : List Insertion) : motive (ofInsertions steps) steps := by
  induction steps using List.reverseRecOn with
  | nil => exact hEmpty
  | append_singleton steps step ih =>
    have hLast : ofInsertions (steps ++ [step]) = (ofInsertions steps).insert step := by
      rw [ofInsertions, List.foldl_append]
      rfl
    rw [hLast]
    exact hInsert _ _ _ ih

theorem wellFormed_ofInsertions (steps : List Insertion) : (ofInsertions steps).WellFormed :=
  ofInsertions_induction (motive := fun g _ => g.WellFormed) wellFormed_empty
    (fun _ _ step h => h.insert step) steps

/-- The edges are those that were recorded, from each dependency to what depends on it. -/
theorem edge_ofInsertions_iff {steps : List Insertion} {a b : Nat} :
    (ofInsertions steps).Edge a b ↔ .edge b a ∈ steps :=
  ofInsertions_induction (motive := fun g steps => g.Edge a b ↔ .edge b a ∈ steps)
    ⟨fun h => absurd h List.not_mem_nil, fun h => absurd h List.not_mem_nil⟩
    (fun g steps step h => by
      rw [edge_insert_iff, h, List.mem_append, List.mem_singleton, eq_comm (a := step)]) steps

/-- The nodes are those that some call names. -/
theorem mem_keys_ofInsertions_iff {steps : List Insertion} {k : Nat} :
    k ∈ (ofInsertions steps).keys ↔ ∃ step ∈ steps, k ∈ step.keys :=
  ofInsertions_induction (motive := fun g steps => k ∈ g.keys ↔ ∃ step ∈ steps, k ∈ step.keys)
    ⟨fun h => absurd h List.not_mem_nil, fun ⟨_, h, _⟩ => absurd h List.not_mem_nil⟩
    (fun g steps step h => by
      simp only [mem_keys_insert_iff, h, List.mem_append, List.mem_singleton, or_and_right, exists_or,
        exists_eq_left]) steps

/-- A graph has no loop just when no chain of recorded dependencies leads back to where it starts. -/
theorem acyclic_ofInsertions_iff {steps : List Insertion} :
    (ofInsertions steps).Acyclic ↔ ∀ k, ¬ Relation.TransGen
      (fun dependent dependency => .edge dependent dependency ∈ steps) k k := by
  have hEdge : (ofInsertions steps).Edge =
      Function.swap fun dependent dependency => .edge dependent dependency ∈ steps := by
    funext a b
    exact propext edge_ofInsertions_iff
  rw [Acyclic, hEdge]
  exact forall_congr' fun k => not_congr Relation.transGen_swap

/-! ## The order in which a graph is checked -/

/-- The sort finds a loop only if the search for loops did. -/
theorem WellFormed.topologicalOrder_eq (hw : g.WellFormed) :
    g.topologicalOrder = match g.cycle? with
      | none => .ok g.order
      | some labels => .error labels := by
  cases hCycle : g.cycle? with
  | none => simp [topologicalOrder, hCycle, (hw.cycle?_eq_none_iff.mp hCycle).breach?_eq_none hw]
  | some labels => simp [topologicalOrder, hCycle]

theorem WellFormed.checkOrder_eq (hw : g.WellFormed) :
    g.checkOrder = match g.cycle? with
      | none => (g.order, none)
      | some labels => (g.keys, some labels) := by
  rw [checkOrder, hw.topologicalOrder_eq]
  cases g.cycle? <;> rfl

/-- A loop is reported with the order just when there is one. -/
theorem WellFormed.checkOrder_snd_eq_none_iff (hw : g.WellFormed) :
    g.checkOrder.2 = none ↔ g.Acyclic := by
  rw [← hw.cycle?_eq_none_iff, hw.checkOrder_eq]
  cases g.cycle? <;> simp

/-- With a loop or without, the order lists every node once. -/
theorem WellFormed.checkOrder_nodup (hw : g.WellFormed) :
    g.checkOrder.1.Nodup ∧ ∀ k, k ∈ g.checkOrder.1 ↔ k ∈ g.keys := by
  rw [hw.checkOrder_eq]
  cases hCycle : g.cycle? with
  | none =>
    have hTopological := (hw.cycle?_eq_none_iff.mp hCycle).topological_order hw
    exact ⟨hTopological.nodup, hTopological.mem_iff⟩
  | some labels => exact ⟨hw.keys_nodup, fun _ => Iff.rfl⟩

/-- Whatever calls build a graph, the order in which it is checked lists every node once that some call
names. It comes without a loop just when no chain of dependencies leads back to where it starts, and
then every dependency stands before what depends on it. If the search for loops finds none, neither does
the sort, and the order is the one that the search with a stack comes to. -/
theorem checkOrder_ofInsertions (steps : List Insertion) :
    ((ofInsertions steps).checkOrder.1.Nodup ∧
      ∀ k, k ∈ (ofInsertions steps).checkOrder.1 ↔ ∃ step ∈ steps, k ∈ step.keys) ∧
    ((ofInsertions steps).checkOrder.2 = none ↔ ∀ k, ¬ Relation.TransGen
      (fun dependent dependency => .edge dependent dependency ∈ steps) k k) ∧
    ((ofInsertions steps).checkOrder.2 = none →
      ∀ dependent dependency, .edge dependent dependency ∈ steps →
        (ofInsertions steps).checkOrder.1.idxOf dependency <
          (ofInsertions steps).checkOrder.1.idxOf dependent) ∧
    ((ofInsertions steps).cycle? = none →
      (∃ order, (ofInsertions steps).topologicalOrder = .ok order) ∧
      ∀ order, (ofInsertions steps).topologicalOrder = .ok order ↔ (ofInsertions steps).Yields order) := by
  have hw := wellFormed_ofInsertions steps
  obtain ⟨hNodup, hMem⟩ := hw.checkOrder_nodup
  refine ⟨⟨hNodup, fun k => (hMem k).trans mem_keys_ofInsertions_iff⟩,
    hw.checkOrder_snd_eq_none_iff.trans acyclic_ofInsertions_iff, ?_, ?_⟩
  · intro hNone dependent dependency hStep
    have hg := hw.checkOrder_snd_eq_none_iff.mp hNone
    have hTopological := hg.topological_order hw
    have hEdge := edge_ofInsertions_iff.mpr hStep
    obtain ⟨hFrom, hTo⟩ := hw.mem_keys _ _ hEdge
    have hne : dependency ≠ dependent := fun hEq => hg.not_edge_self dependent (hEq ▸ hEdge)
    rw [hg.checkOrder_eq hw]
    exact idxOf_lt_of_pairwise hTopological.ordered ((hTopological.mem_iff _).mpr hFrom)
      ((hTopological.mem_iff _).mpr hTo) hne hEdge
  · intro hNone
    have hOk : (ofInsertions steps).topologicalOrder = .ok (ofInsertions steps).order := by
      rw [hw.topologicalOrder_eq, hNone]
    refine ⟨⟨_, hOk⟩, fun order => ?_⟩
    rw [hw.yields_iff, hOk, Except.ok.injEq, eq_comm]

/-- An edge that is recorded twice, between nodes that are added by it or after it. -/
def recordedTwice : List Insertion := [.edge 1 0, .node 2 "", .edge 1 0, .node 0 "", .edge 0 2]

/-- The sort gives the order that the search with a stack comes to. -/
theorem checkOrder_recordedTwice :
    (ofInsertions recordedTwice).checkOrder = ([2, 0, 1], none) ∧
      (ofInsertions recordedTwice).Yields [2, 0, 1] := by
  obtain ⟨-, -, -, hYields⟩ := checkOrder_ofInsertions recordedTwice
  exact ⟨by decide, ((hYields (by decide)).2 _).mp (by decide)⟩

end Loadout.DependencyGraph
