import Loadout.Proofs.DependencyGraph.Insertion

/-!
# The loop that is reported

If a graph has a loop, the search for one reports the labels along it, the first one repeated at the end. A
node is labelled by the first call that names it. The report holds no node twice and no node that only
leads to the loop, since it is cut off the path of the search where the loop closes.

* `labelOf`, `label_ofInsertions`: the labels that the calls give;
* `cycle?_ofInsertions`: when a loop is reported, and what is reported then.
-/

namespace Loadout.DependencyGraph

/-! ## Labels -/

/-- The label that a call gives to a node that it names. A node that comes with an edge is labelled by its
key. -/
def Insertion.label? (key : Nat) : Insertion → Option String
  | .node key' label => if key' = key then some label else none
  | .edge dependent dependency =>
    if dependent = key ∨ dependency = key then some (toString key) else none

/-- The label of a node: the one that it had from the first call that names it. -/
def labelOf (steps : List Insertion) (key : Nat) : String :=
  (steps.findSome? (Insertion.label? key)).getD (toString key)

variable {g : DependencyGraph}

/-- The label that a node was added with. -/
def label? (g : DependencyGraph) (key : Nat) : Option String :=
  (g.nodes.find? fun n => n.1 == key).map Prod.snd

theorem label_eq (g : DependencyGraph) (key : Nat) : g.label key = (g.label? key).getD (toString key) := by
  unfold label label?
  cases g.nodes.find? fun n => n.1 == key <;> rfl

theorem label?_eq_none_iff {key : Nat} : g.label? key = none ↔ key ∉ g.keys := by
  simp only [label?, Option.map_eq_none_iff, List.find?_eq_none, keys, List.mem_map, not_exists, not_and,
    beq_iff_eq]

/-- A node that is there keeps its label. -/
theorem label?_addNode (g : DependencyGraph) (key key' : Nat) (label : String) :
    (g.addNode key' label).label? key =
      (g.label? key).or (if key' = key then some label else none) := by
  by_cases hMem : key' ∈ g.keys
  · rw [addNode_of_mem hMem]
    split
    · rename_i hEq
      subst hEq
      cases hLabel : g.label? key' with
      | none => exact absurd hMem (label?_eq_none_iff.mp hLabel)
      | some _ => rfl
    · rw [Option.or_none]
  · have hNodes : (g.addNode key' label).nodes = g.nodes ++ [(key', label)] := by
      unfold addNode
      rw [if_neg (by simpa [contains] using hMem)]
    rw [label?, hNodes, List.find?_append, Option.map_or, ← label?]
    by_cases hEq : key' = key <;> simp [hEq]

theorem label?_insert (g : DependencyGraph) (step : Insertion) (key : Nat) :
    (g.insert step).label? key = (g.label? key).or (step.label? key) := by
  cases step with
  | node key' label => exact label?_addNode g key key' label
  | edge dependent dependency =>
    have hNodes : (g.insert (.edge dependent dependency)).label? key =
        ((g.addNode dependent (toString dependent)).addNode dependency
          (toString dependency)).label? key := by
      rw [insert, label?, nodes_addEdge, label?]
    rw [hNodes, label?_addNode, label?_addNode, Option.or_assoc, Insertion.label?]
    by_cases hFrom : dependent = key <;> by_cases hTo : dependency = key <;> simp [hFrom, hTo]

theorem label_ofInsertions (steps : List Insertion) (key : Nat) :
    (ofInsertions steps).label key = labelOf steps key := by
  have hLabel : (ofInsertions steps).label? key = steps.findSome? (Insertion.label? key) :=
    ofInsertions_induction (motive := fun g steps => g.label? key = steps.findSome? (Insertion.label? key))
      rfl (fun g steps step ih => by
        rw [label?_insert, ih, List.findSome?_append]
        cases hStep : step.label? key <;> simp [hStep]) steps
  rw [label_eq, hLabel, labelOf]

/-! ## Reports -/

/-- What is reported are the labels along a loop. -/
theorem isLoop_of_cycle? {labels : List String} (h : g.cycle? = some labels) :
    ∃ loop, g.IsLoop loop ∧ labels = loop.map g.label := by
  unfold cycle? at h
  split at h
  · cases h
  · rename_i loop hError
    exact ⟨loop, search_error hError, (Option.some.inj h).symm⟩

/-- Whatever calls build a graph, a loop is reported just when some chain of dependencies leads back to where
it starts; a node that depends on itself is such a chain. The report then consists of the labels of some
nodes, no two of them the same, each a dependency of the next one and the last a dependency of the first,
with the label of the first repeated at the end. All of them lead back to themselves. -/
theorem cycle?_ofInsertions (steps : List Insertion) :
    ((ofInsertions steps).cycle?.isSome = true ↔ ∃ k, Relation.TransGen
      (fun dependent dependency => .edge dependent dependency ∈ steps) k k) ∧
    ∀ labels, (ofInsertions steps).cycle? = some labels →
      ∃ first rest, labels = (first :: rest ++ [first]).map (labelOf steps) ∧
        (first :: rest).Nodup ∧
        (first :: rest ++ [first]).IsChain
          (fun dependency dependent => .edge dependent dependency ∈ steps) ∧
        ∀ k ∈ first :: rest, Relation.TransGen
          (fun dependent dependency => .edge dependent dependency ∈ steps) k k := by
  have hw := wellFormed_ofInsertions steps
  have hEdge : (ofInsertions steps).Edge =
      fun dependency dependent => .edge dependent dependency ∈ steps := by
    funext a b
    exact propext edge_ofInsertions_iff
  constructor
  · have hAcyclic := hw.cycle?_eq_none_iff.trans acyclic_ofInsertions_iff
    rw [Option.isSome_iff_ne_none, ne_eq, hAcyclic, not_forall]
    simp only [not_not]
  · intro labels hReport
    obtain ⟨loop, hLoop, rfl⟩ := isLoop_of_cycle? hReport
    obtain ⟨first, rest, rfl, hNodup, hChain⟩ := id hLoop
    refine ⟨first, rest, List.map_congr_left fun k _ => label_ofInsertions steps k, hNodup,
      hEdge ▸ hChain, ?_⟩
    intro k hk
    have hBack := hLoop.transGen k (List.mem_append_left _ hk)
    rw [hEdge] at hBack
    exact Relation.transGen_swap.mp hBack

/-- A loop of three nodes, with a node that leads to it, one that it leads to, and a dependency that is
recorded twice. -/
def upstream : List Insertion :=
  [.node 0 "X", .node 1 "A", .node 2 "B", .edge 1 0, .edge 2 1, .edge 3 2, .edge 1 3, .edge 2 1, .edge 4 3]

/-- The node that leads to the loop is searched from first and is not reported. -/
theorem cycle?_upstream :
    (ofInsertions upstream).cycle? = some ["A", "B", "3", "A"] ∧
      ∃ first rest, ["A", "B", "3", "A"] = (first :: rest ++ [first]).map (labelOf upstream) ∧
        (first :: rest).Nodup ∧
        (first :: rest ++ [first]).IsChain
          (fun dependency dependent => .edge dependent dependency ∈ upstream) ∧
        ∀ k ∈ first :: rest, Relation.TransGen
          (fun dependent dependency => .edge dependent dependency ∈ upstream) k k := by
  have hReport : (ofInsertions upstream).cycle? = some ["A", "B", "3", "A"] := by decide
  exact ⟨hReport, (cycle?_ofInsertions upstream).2 _ hReport⟩

end Loadout.DependencyGraph
