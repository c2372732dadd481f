import Loadout.Proofs.DependencyGraph.Order

/-!
# The search with a stack

A depth-first search need not recurse. It can keep a stack of nodes to look at: a node that comes up
for the first time stays and has what it leads to put on top of it, and the next time it comes up it is
finished. A node may be put on the stack several times before it comes up at all, and then all but one of
its places are passed over.

* `StackSearch.step`: one look at the stack, or the next node to search from when the stack is empty;
* `leave_follows`: from a stack with a node on top, the steps lead to the stack without it and to what
  the recursive search makes of its progress. The induction is on the depth of the recursion; what it
  carries is that the nodes seen are those finished and those on the path, which lie under the node on
  the stack;
* `WellFormed.yields_iff`: the steps come to an end, with the nodes in the order of the recursive search
  and in no other. This holds of graphs with loops as well.
-/

namespace Loadout.DependencyGraph

/-- A search between two looks at its stack: the nodes still to be searched from, the stack from its top,
the nodes discovered, and those finished, the last one first. -/
structure StackSearch where
  pending : List Nat
  stack : List Nat
  discovered : List Nat
  finished : List Nat

/-- One step of a search, if it is not at its end. A node on top of the stack that is new is discovered
and has the new nodes that it leads to pushed above it, the newest edge first. One that is not new is
popped, and finished unless it was. -/
def StackSearch.step (g : DependencyGraph) (s : StackSearch) : Option StackSearch :=
  match s.stack with
  | key :: rest =>
    if s.discovered.contains key then
      some { s with
        stack := rest
        finished := if s.finished.contains key then s.finished else key :: s.finished }
    else
      let discovered := key :: s.discovered
      let fresh := (g.dependents key).filter fun next => !discovered.contains next
      some { s with stack := fresh.reverse ++ s.stack, discovered := discovered }
  | [] =>
    match s.pending with
    | [] => none
    | key :: rest =>
      some { s with pending := rest, stack := if s.discovered.contains key then [] else [key] }

/-- Some steps lead from one state of a search to another. -/
def Runs (g : DependencyGraph) : StackSearch → StackSearch → Prop :=
  Relation.ReflTransGen fun s t => s.step g = some t

variable {g : DependencyGraph}

/-- A search has at most one end. -/
theorem Runs.eq_of_halted {s t t' : StackSearch} (h : g.Runs s t) (h' : g.Runs s t')
    (hHalted : t.step g = none) (hHalted' : t'.step g = none) : t = t' := by
  have hStuck {a b : StackSearch} (hRuns : g.Runs a b) (hNone : a.step g = none) : a = b := by
    rcases Relation.ReflTransGen.cases_head hRuns with hEq | ⟨c, hStep, -⟩
    · exact hEq
    · rw [hNone] at hStep
      cases hStep
  have hUnique : Relator.RightUnique fun s t : StackSearch => s.step g = some t :=
    fun a b c hb hc => Option.some.inj (hb.symm.trans hc)
  rcases Relation.ReflTransGen.total_of_right_unique hUnique h h' with hOn | hOn
  · exact hStuck hOn hHalted
  · exact (hStuck hOn hHalted').symm

/-! ## The recursion that the steps follow -/

theorem balanced_start : Progress.Balanced [] ⟨[], []⟩ := ⟨by simp, by simp⟩

/-- What a recursive search made of its progress is what the steps lead to that take some nodes off the
stack. -/
structure Follows (g : DependencyGraph) (path nodes : List Nat) (p q : Progress) : Prop where
  balanced : Progress.Balanced path q
  subset : p.seen ⊆ q.seen
  runs : ∀ pending rest,
    g.Runs ⟨pending, nodes ++ rest, p.seen, p.left⟩ ⟨pending, rest, q.seen, q.left⟩

/-- A node that was left and is found on the stack again is passed over. -/
theorem Progress.Balanced.follows_of_seen {path : List Nat} {p : Progress} {key : Nat}
    (h : Progress.Balanced path p) (hPath : key ∉ path) (hSeen : key ∈ p.seen) :
    g.Follows path [key] p p := by
  have hLeft : key ∈ p.left := ((h.mem_seen key).mp hSeen).resolve_left hPath
  refine ⟨h, List.Subset.refl _, fun pending rest => .single ?_⟩
  simp [StackSearch.step, hSeen, hLeft]

theorem leave_of_seen {depth key : Nat} {p : Progress} (h : key ∈ p.seen) :
    g.leave depth p key = p := by
  cases depth with
  | zero => rfl
  | succ depth => rw [leave, if_pos (by simpa using h)]

/-- The nodes that were pushed are those that were new at that time. The recursive search comes to all of
them, and to some that were seen, which it passes over. -/
theorem foldl_follows {path : List Nat} {p : Progress} (f : Progress → Nat → Progress)
    (discovered nodes : List Nat) (hp : Progress.Balanced path p) (hSeen : discovered ⊆ p.seen)
    (hSkip : ∀ q key, key ∈ q.seen → f q key = q)
    (hf : ∀ q key, Progress.Balanced path q → p.seen ⊆ q.seen → key ∈ nodes → key ∉ discovered →
      g.Follows path [key] q (f q key)) :
    g.Follows path (nodes.filter fun key => !discovered.contains key) p (nodes.foldl f p) := by
  induction nodes generalizing p with
  | nil => exact ⟨hp, List.Subset.refl _, fun _ _ => .refl⟩
  | cons key rest ih =>
    by_cases hOld : key ∈ discovered
    · rw [List.filter_cons_of_neg (by simpa using hOld), List.foldl_cons, hSkip p key (hSeen hOld)]
      exact ih hp hSeen fun q key' hq hLe hMem => hf q key' hq hLe (List.mem_cons_of_mem _ hMem)
    · rw [List.filter_cons_of_pos (by simpa using hOld), List.foldl_cons]
      have hFirst := hf p key hp (List.Subset.refl _) List.mem_cons_self hOld
      have hRest := ih hFirst.balanced (List.Subset.trans hSeen hFirst.subset)
        fun q key' hq hLe hMem => hf q key' hq (List.Subset.trans hFirst.subset hLe)
          (List.mem_cons_of_mem _ hMem)
      exact ⟨hRest.balanced, List.Subset.trans hFirst.subset hRest.subset, fun pending below =>
        (hFirst.runs pending _).trans (hRest.runs pending below)⟩

/-- The steps follow the recursion from a node that is not on the path, if the recursion may go as deep as
there are nodes that it has not seen. -/
theorem leave_follows (hw : g.WellFormed) {depth key : Nat} {path : List Nat} {p : Progress}
    (hp : Progress.Balanced path p) (hKey : key ∈ g.keys) (hPath : key ∉ path)
    (hDepth : (g.unseen p).length ≤ depth) : g.Follows path [key] p (g.leave depth p key) := by
  induction depth generalizing path key p with
  | zero =>
    exact hp.follows_of_seen hPath (mem_seen_of_unseen_le hKey hDepth)
  | succ depth ih =>
    by_cases hSeen : key ∈ p.seen
    · rw [leave_of_seen hSeen]
      exact hp.follows_of_seen hPath hSeen
    · have hEnter := hp.enter hSeen
      have hLess := unseen_enter_lt hKey hSeen
      have hInner := foldl_follows (g.leave depth) (key :: p.seen) (g.dependents key).reverse hEnter
        (List.Subset.refl _) (fun q next => leave_of_seen) fun q next hq hLe hMem hNew => by
          have hEdge : g.Edge key next := mem_dependents.mp (List.mem_reverse.mp hMem)
          refine ih hq (hw.mem_keys key next hEdge).2 (fun hOn => ?_) ?_
          · exact hNew ((hEnter.mem_seen next).mpr (.inl hOn))
          · have := unseen_le_of_subset (g := g) hLe
            omega
      rw [leave, if_neg (by simpa using hSeen)]
      generalize (g.dependents key).reverse.foldl (g.leave depth)
        { p with seen := key :: p.seen } = q at hInner
      have hOpen : key ∉ q.left := hInner.balanced.not_mem_left key List.mem_cons_self
      have hDiscovered : key ∈ q.seen := hInner.subset List.mem_cons_self
      refine ⟨hInner.balanced.exit hPath,
        List.Subset.trans (List.subset_cons_self _ _) hInner.subset, fun pending rest => ?_⟩
      -- the node is discovered, what was pushed above it is taken off, and it is finished
      refine .head (b := ⟨pending, _ ++ key :: rest, key :: p.seen, p.left⟩) ?_
        ((hInner.runs pending (key :: rest)).tail ?_)
      · simp [StackSearch.step, hSeen, List.filter_reverse]
      · simp [StackSearch.step, hDiscovered, hOpen]

/-! ## The whole search -/

/-- From an empty stack, the steps follow the recursion from one pending node after another. -/
theorem foldl_runs (hw : g.WellFormed) {nodes : List Nat} {p : Progress} (hp : Progress.Balanced [] p)
    (hNodes : nodes ⊆ g.keys) :
    g.Runs ⟨nodes, [], p.seen, p.left⟩
      ⟨[], [], (nodes.foldl (g.leave g.size) p).seen, (nodes.foldl (g.leave g.size) p).left⟩ := by
  induction nodes generalizing p with
  | nil => exact .refl
  | cons key rest ih =>
    obtain ⟨hKey, hRest⟩ := List.cons_subset.mp hNodes
    have hFirst := leave_follows hw hp hKey List.not_mem_nil (g.length_unseen_le_size p)
    rw [List.foldl_cons]
    by_cases hSeen : key ∈ p.seen
    · rw [leave_of_seen hSeen]
      exact .head (by simp [StackSearch.step, hSeen]) (ih hp hRest)
    · exact .head (b := ⟨rest, [key], p.seen, p.left⟩) (by simp [StackSearch.step, hSeen])
        ((hFirst.runs rest []).trans (ih hFirst.balanced hRest))

/-- A search from every node in turn comes to its end with the nodes in some order. -/
def Yields (g : DependencyGraph) (order : List Nat) : Prop :=
  ∃ s : StackSearch, g.Runs ⟨g.keys, [], [], []⟩ s ∧ s.step g = none ∧ s.finished = order

/-- The search comes to an end, with the nodes in the order of the graph and in no other. -/
theorem WellFormed.yields_iff (hw : g.WellFormed) {order : List Nat} :
    g.Yields order ↔ order = g.order := by
  have hRuns := foldl_runs hw balanced_start (List.Subset.refl g.keys)
  constructor
  · rintro ⟨s, hRuns', hHalted, rfl⟩
    rw [hRuns'.eq_of_halted hRuns hHalted rfl, order]
  · rintro rfl
    exact ⟨_, hRuns, rfl, rfl⟩

end Loadout.DependencyGraph
