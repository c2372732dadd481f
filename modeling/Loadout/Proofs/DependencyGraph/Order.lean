import Loadout.DependencyGraph
import Mathlib.Data.List.Chain
import Mathlib.Data.List.Nodup
import Mathlib.Logic.Relation

/-!
# Orders of acyclic dependency graphs

A graph without a loop is checked in an order that lists every node once and every dependency before
what depends on it.

* `search_error`: what is reported is a loop. The path of a search runs along the edges, so an edge from
  the node at which it stands back to one of its nodes closes one.
* `Progress.Balanced`, `Progress.Sound`: what holds between the nodes that a search has seen, those
  that it has left and those on its path, in every graph and in one without a loop. The latter makes
  the nodes that were left a topological order at all times, since a node is left only after all that
  it leads to.
* `Acyclic.checkOrder_eq`: the order that is used.
-/

namespace Loadout.DependencyGraph

variable {g : DependencyGraph}

/-! ## Edges -/

/-- One node is a dependency of another. -/
def Edge (g : DependencyGraph) (a b : Nat) : Prop := (a, b) ∈ g.edges

/-- No node depends on itself, be it through others. -/
def Acyclic (g : DependencyGraph) : Prop := ∀ k, ¬ Relation.TransGen g.Edge k k

/-- Every node is listed once, and every edge joins two of them. -/
structure WellFormed (g : DependencyGraph) : Prop where
  keys_nodup : g.keys.Nodup
  mem_keys : ∀ a b, g.Edge a b → a ∈ g.keys ∧ b ∈ g.keys

theorem mem_dependents {a b : Nat} : b ∈ g.dependents a ↔ g.Edge a b := by
  simp only [dependents, List.mem_map, List.mem_filter, beq_iff_eq, Edge]
  constructor
  · rintro ⟨⟨a', b'⟩, ⟨hMem, rfl⟩, rfl⟩
    exact hMem
  · intro hMem
    exact ⟨(a, b), ⟨hMem, rfl⟩, rfl⟩

theorem Acyclic.not_edge_self (h : g.Acyclic) (k : Nat) : ¬ g.Edge k k := fun hEdge =>
  h k (.single hEdge)

/-- A graph whose edges all go up in some ranking has no loop. -/
theorem acyclic_of_rank (rank : Nat → Nat) (h : ∀ a b, g.Edge a b → rank a < rank b) :
    g.Acyclic := by
  have hUp {a b : Nat} (hPath : Relation.TransGen g.Edge a b) : rank a < rank b := by
    induction hPath with
    | single hEdge => exact h _ _ hEdge
    | tail _ hEdge ih => exact Nat.lt_trans ih (h _ _ hEdge)
  exact fun k hLoop => absurd (hUp hLoop) (Nat.lt_irrefl _)

/-! ## Well-formed graphs -/

theorem wellFormed_empty : empty.WellFormed :=
  ⟨List.nodup_nil, fun _ _ h => absurd h List.not_mem_nil⟩

theorem addNode_of_mem {key : Nat} (h : key ∈ g.keys) (label : String) :
    g.addNode key label = g := by
  unfold addNode
  rw [if_pos (by simpa [contains] using h)]

theorem keys_addNode_of_not_mem {key : Nat} (h : key ∉ g.keys) (label : String) :
    (g.addNode key label).keys = g.keys ++ [key] := by
  unfold addNode
  rw [if_neg (by simpa [contains] using h)]
  simp [keys]

theorem edges_addNode (key : Nat) (label : String) : (g.addNode key label).edges = g.edges := by
  unfold addNode
  split <;> rfl

theorem mem_keys_addNode {key k : Nat} {label : String} :
    k ∈ (g.addNode key label).keys ↔ k ∈ g.keys ∨ k = key := by
  by_cases h : key ∈ g.keys
  · rw [addNode_of_mem h]
    constructor
    · exact .inl
    · rintro (hk | rfl)
      · exact hk
      · exact h
  · rw [keys_addNode_of_not_mem h, List.mem_append, List.mem_singleton]

theorem WellFormed.addNode (h : g.WellFormed) (key : Nat) (label : String) :
    (g.addNode key label).WellFormed := by
  constructor
  · by_cases hKey : key ∈ g.keys
    · rw [addNode_of_mem hKey]
      exact h.keys_nodup
    · rw [keys_addNode_of_not_mem hKey, ← List.concat_eq_append]
      exact h.keys_nodup.concat hKey
  · intro a b hEdge
    rw [Edge, edges_addNode] at hEdge
    obtain ⟨ha, hb⟩ := h.mem_keys a b hEdge
    exact ⟨mem_keys_addNode.mpr (.inl ha), mem_keys_addNode.mpr (.inl hb)⟩

/-- The nodes after an edge was recorded are those after both its ends were added. -/
theorem nodes_addEdge (g : DependencyGraph) (dependent dependency : Nat) :
    (g.addEdge dependent dependency).nodes =
      ((g.addNode dependent (toString dependent)).addNode dependency
        (toString dependency)).nodes := by
  unfold addEdge
  dsimp only
  split <;> rfl

theorem edge_addEdge {dependent dependency a b : Nat} :
    (g.addEdge dependent dependency).Edge a b ↔
      (a, b) = (dependency, dependent) ∨ g.Edge a b := by
  unfold addEdge Edge
  dsimp only
  rw [edges_addNode, edges_addNode]
  split
  · rename_i hMem
    rw [edges_addNode, edges_addNode]
    constructor
    · exact .inr
    · rintro (hEq | hOld)
      · rw [hEq]
        simpa using hMem
      · exact hOld
  · rw [List.mem_cons]

theorem WellFormed.addEdge (h : g.WellFormed) (dependent dependency : Nat) :
    (g.addEdge dependent dependency).WellFormed := by
  have hNodes := (h.addNode dependent (toString dependent)).addNode dependency (toString dependency)
  have hKeys : (g.addEdge dependent dependency).keys =
      ((g.addNode dependent (toString dependent)).addNode dependency (toString dependency)).keys :=
    congrArg (List.map Prod.fst) (g.nodes_addEdge dependent dependency)
  refine ⟨hKeys ▸ hNodes.keys_nodup, ?_⟩
  intro a b hEdge
  rw [hKeys]
  rcases edge_addEdge.mp hEdge with hEq | hOld
  · cases hEq
    exact ⟨mem_keys_addNode.mpr (.inr rfl),
      mem_keys_addNode.mpr (.inl (mem_keys_addNode.mpr (.inr rfl)))⟩
  · exact hNodes.mem_keys a b (by rwa [Edge, edges_addNode, edges_addNode])

/-- Adding an edge between nodes that are there adds no node. -/
theorem keys_addEdge_of_mem {dependent dependency : Nat} (h : dependent ∈ g.keys)
    (h' : dependency ∈ g.keys) : (g.addEdge dependent dependency).keys = g.keys := by
  have hNodes := g.nodes_addEdge dependent dependency
  rw [addNode_of_mem h, addNode_of_mem h'] at hNodes
  exact congrArg (List.map Prod.fst) hNodes

/-! ## Loops are real -/

/-- A way along edges that comes back to where it starts and to no other node twice. -/
def IsLoop (g : DependencyGraph) (loop : List Nat) : Prop :=
  ∃ first rest, loop = first :: rest ++ [first] ∧ (first :: rest).Nodup ∧ loop.IsChain g.Edge

/-- Every node on a loop leads back to itself. -/
theorem IsLoop.transGen {loop : List Nat} (h : g.IsLoop loop) :
    ∀ k ∈ loop, Relation.TransGen g.Edge k k := by
  obtain ⟨first, rest, rfl, -, hChain⟩ := h
  have hReach : (first :: rest ++ [first]).Pairwise (Relation.TransGen g.Edge) :=
    List.isChain_iff_pairwise.mp (hChain.imp fun _ _ => Relation.TransGen.single)
  obtain ⟨hFirst, hRest⟩ := List.pairwise_cons.mp hReach
  intro k hk
  have hBack : first = k ∨ k ∈ rest := by
    simpa [eq_comm, or_comm] using hk
  rcases hBack with rfl | hk
  · exact hFirst first (by simp)
  · have hOn : Relation.TransGen g.Edge k first :=
      (List.pairwise_append.mp hRest).2.2 k hk first (by simp)
    exact hOn.trans (hFirst k (by simp [hk]))

theorem takeWhile_append_prefix {key : Nat} {path : List Nat} (h : key ∈ path) :
    path.takeWhile (· != key) ++ [key] <+: path := by
  induction path with
  | nil => cases h
  | cons a rest ih =>
    by_cases ha : a = key
    · subst ha
      simp
    · have hMem : key ∈ rest := (List.mem_cons.mp h).resolve_left fun hEq => ha hEq.symm
      rw [List.takeWhile_cons_of_pos (by simpa using ha), List.cons_append]
      exact List.prefix_cons_inj a |>.mpr (ih hMem)

/-- An edge from the end of a path back to one of its nodes closes a loop: the part of the path since that
node, and nothing of what led there. -/
theorem isLoop_loopAt {next : Nat} {path : List Nat} (hBack : next ∈ path) (hNodup : path.Nodup)
    (hChain : (next :: path).IsChain fun a b => g.Edge b a) : g.IsLoop (loopAt next path) := by
  have hPrefix := takeWhile_append_prefix hBack
  have hReverse : (path.takeWhile (· != next) ++ [next]).reverse =
      next :: (path.takeWhile (· != next)).reverse := by simp
  refine ⟨next, (path.takeWhile (· != next)).reverse, rfl, ?_, ?_⟩
  · rw [← hReverse, List.nodup_reverse]
    exact hNodup.sublist hPrefix.sublist
  · have hClosed : (next :: (path.takeWhile (· != next) ++ [next])).reverse = loopAt next path := by
      rw [List.reverse_cons, hReverse, loopAt]
    rw [← hClosed, List.isChain_reverse]
    exact hChain.prefix ((List.prefix_cons_inj next).mpr hPrefix)

section

variable {ε α β : Type} {f : β → α → Except ε β} {l : List α} {b : β} {I : β → Prop}

/-- What every step keeps that ends well is kept by a fold that does. -/
theorem inv_of_foldlM_ok {b' : β} (hb : I b)
    (hStep : ∀ a ∈ l, ∀ b b', I b → f b a = .ok b' → I b') (h : l.foldlM f b = .ok b') : I b' := by
  induction l generalizing b with
  | nil =>
    cases h
    exact hb
  | cons a rest ih =>
    rw [List.foldlM_cons] at h
    cases hFirst : f b a with
    | error e =>
      rw [hFirst] at h
      cases h
    | ok next =>
      rw [hFirst] at h
      exact ih (hStep a List.mem_cons_self b next hb hFirst)
        (fun a' hMem => hStep a' (List.mem_cons_of_mem _ hMem)) h

/-- A fold that ends with an error met it at one of its steps, where what the steps before it keep still
held. -/
theorem exists_of_foldlM_error {e : ε} (hb : I b)
    (hStep : ∀ a ∈ l, ∀ b b', I b → f b a = .ok b' → I b') (h : l.foldlM f b = .error e) :
    ∃ a ∈ l, ∃ b', I b' ∧ f b' a = .error e := by
  induction l generalizing b with
  | nil => cases h
  | cons a rest ih =>
    rw [List.foldlM_cons] at h
    cases hFirst : f b a with
    | error e' =>
      rw [hFirst] at h
      cases h
      exact ⟨a, List.mem_cons_self, b, hb, hFirst⟩
    | ok next =>
      rw [hFirst] at h
      obtain ⟨a', hMem, b', hInv, hError⟩ := ih (hStep a List.mem_cons_self b next hb hFirst)
        (fun a' hMem => hStep a' (List.mem_cons_of_mem _ hMem)) h
      exact ⟨a', List.mem_cons_of_mem _ hMem, b', hInv, hError⟩

end

/-- A search forgets no node that was visited. -/
theorem subset_of_visit_ok {depth key : Nat} {path visited visited' : List Nat}
    (h : g.visit depth path visited key = .ok visited') : visited ⊆ visited' := by
  induction depth generalizing path visited visited' key with
  | zero =>
    cases h
    exact List.Subset.refl _
  | succ depth ih =>
    rw [visit] at h
    have hEntered : key :: visited ⊆ visited' := by
      refine inv_of_foldlM_ok (I := (key :: visited ⊆ ·)) (List.Subset.refl _) ?_ h
      intro next _ seen seen' hSeen hStep
      split at hStep
      · exact List.Subset.trans hSeen (ih hStep)
      · split at hStep <;> cases hStep
        exact hSeen
    exact List.Subset.trans (List.subset_cons_self key visited) hEntered

/-- What a search reports is a loop. Its path runs against the edges, names no node twice, and stays among
the nodes visited, so that a new node makes it longer without a repetition. -/
theorem visit_error {depth key : Nat} {path visited loop : List Nat}
    (hChain : (key :: path).IsChain fun a b => g.Edge b a) (hNodup : path.Nodup) (hPath : path ⊆ visited)
    (hFresh : key ∉ visited) (h : g.visit depth path visited key = .error loop) : g.IsLoop loop := by
  induction depth generalizing path visited key with
  | zero => cases h
  | succ depth ih =>
    have hEnter : (key :: path).Nodup := List.nodup_cons.mpr ⟨fun hMem => hFresh (hPath hMem), hNodup⟩
    rw [visit] at h
    obtain ⟨next, hNext, seen, hSeen, hStep⟩ := exists_of_foldlM_error (I := (key :: path ⊆ ·))
      (List.cons_subset_cons key hPath) (fun next _ seen seen' hSeen hStep => by
        split at hStep
        · exact List.Subset.trans hSeen (subset_of_visit_ok hStep)
        · split at hStep <;> cases hStep
          exact hSeen) h
    have hOn : (next :: key :: path).IsChain fun a b => g.Edge b a :=
      List.isChain_cons_cons.mpr ⟨mem_dependents.mp hNext, hChain⟩
    split at hStep
    · rename_i hNew
      exact ih hOn hEnter hSeen (by simpa using hNew) hStep
    · split at hStep
      · rename_i hBack
        cases hStep
        exact isLoop_loopAt (by simpa using hBack) hEnter hOn
      · cases hStep

theorem search_error {loop : List Nat} (h : g.search = .error loop) : g.IsLoop loop := by
  obtain ⟨key, -, visited, -, hStep⟩ := exists_of_foldlM_error (I := fun _ => True) trivial
    (fun _ _ _ _ _ _ => trivial) h
  split at hStep
  · cases hStep
  · rename_i hNew
    exact visit_error (by simp) List.nodup_nil (List.nil_subset _) (by simpa using hNew) hStep

theorem Acyclic.cycle?_eq_none (h : g.Acyclic) : g.cycle? = none := by
  unfold cycle?
  split
  · rfl
  · rename_i loop hError
    obtain ⟨first, rest, hLoop, -⟩ := search_error hError
    exact absurd ((search_error hError).transGen first (by simp [hLoop])) (h first)

/-! ## The nodes that a search has left -/

/-- The nodes seen are those on the path and those left, and no node is both. -/
structure Progress.Balanced (path : List Nat) (p : Progress) : Prop where
  mem_seen : ∀ k, k ∈ p.seen ↔ k ∈ path ∨ k ∈ p.left
  not_mem_left : ∀ k ∈ path, k ∉ p.left

namespace Progress.Balanced

variable {path : List Nat} {p : Progress} {key : Nat}

theorem enter (h : Progress.Balanced path p) (hKey : key ∉ p.seen) :
    Progress.Balanced (key :: path) { p with seen := key :: p.seen } where
  mem_seen := fun k => by
    simp only [List.mem_cons, h.mem_seen, or_assoc]
  not_mem_left := fun k hk hLeft => by
    rcases List.mem_cons.mp hk with rfl | hk
    · exact hKey ((h.mem_seen k).mpr (.inr hLeft))
    · exact h.not_mem_left k hk hLeft

theorem exit (h : Progress.Balanced (key :: path) p) (hPath : key ∉ path) :
    Progress.Balanced path { p with left := key :: p.left } where
  mem_seen := fun k => by
    simp only [h.mem_seen, List.mem_cons]
    tauto
  not_mem_left := fun k hk hLeft => by
    rcases List.mem_cons.mp hLeft with rfl | hLeft
    · exact hPath hk
    · exact h.not_mem_left k (List.mem_cons_of_mem _ hk) hLeft

end Progress.Balanced

/-- The nodes seen are those on the path and those left. Those left are listed once, with all that
they lead to, and before it. -/
structure Progress.Sound (g : DependencyGraph) (path : List Nat) (p : Progress) : Prop where
  mem_seen : ∀ k, k ∈ p.seen ↔ k ∈ path ∨ k ∈ p.left
  not_mem_left : ∀ k ∈ path, k ∉ p.left
  nodup : p.left.Nodup
  closed : ∀ a ∈ p.left, ∀ b, g.Edge a b → b ∈ p.left
  ordered : p.left.Pairwise fun a b => ¬ g.Edge b a
  mem_keys : ∀ k ∈ p.left, k ∈ g.keys

/-- The nodes that a search has not seen. -/
def unseen (g : DependencyGraph) (p : Progress) : List Nat := g.keys.filter (· ∉ p.seen)

theorem length_unseen_le_size (g : DependencyGraph) (p : Progress) : (g.unseen p).length ≤ g.size := by
  have hLe : (g.unseen p).length ≤ g.keys.length := List.length_filter_le _ _
  rwa [keys, List.length_map] at hLe

theorem unseen_le_of_subset {p q : Progress} (h : p.seen ⊆ q.seen) :
    (g.unseen q).length ≤ (g.unseen p).length := by
  apply List.Sublist.length_le
  apply List.monotone_filter_right
  intro k hk
  simp only [decide_eq_true_eq] at hk ⊢
  exact fun hOld => hk (h hOld)

/-- If no node is unseen, every node was seen. -/
theorem mem_seen_of_unseen_le {p : Progress} {key : Nat} (hMem : key ∈ g.keys)
    (h : (g.unseen p).length ≤ 0) : key ∈ p.seen := by
  by_contra hFresh
  have hUnseen : key ∈ g.unseen p := by simp [unseen, hMem, hFresh]
  exact absurd h (Nat.not_le.mpr (List.length_pos_of_mem hUnseen))

theorem Progress.sound_start (g : DependencyGraph) : Progress.Sound g [] ⟨[], []⟩ where
  mem_seen := by simp
  not_mem_left := by simp
  nodup := List.nodup_nil
  closed := by simp
  ordered := .nil
  mem_keys := by simp

namespace Progress.Sound

variable {path : List Nat} {p q : Progress} {key : Nat}

theorem balanced (h : Progress.Sound g path p) : Progress.Balanced path p :=
  ⟨h.mem_seen, h.not_mem_left⟩

theorem enter (h : Progress.Sound g path p) (hKey : key ∉ p.seen) :
    Progress.Sound g (key :: path) { p with seen := key :: p.seen } :=
  have hBalanced := h.balanced.enter hKey
  { h with
    mem_seen := hBalanced.mem_seen
    not_mem_left := hBalanced.not_mem_left }

/-- A node may be left once all that it leads to was left. That no node left before leads back to it
is no extra demand: such a node would have it among those left. -/
theorem exit (h : Progress.Sound g (key :: path) p) (hPath : key ∉ path) (hKey : key ∈ g.keys)
    (hNext : ∀ b, g.Edge key b → b ∈ p.left) :
    Progress.Sound g path { p with left := key :: p.left } := by
  have hBalanced := h.balanced.exit hPath
  have hFresh : key ∉ p.left := h.not_mem_left key List.mem_cons_self
  exact {
    mem_seen := hBalanced.mem_seen
    not_mem_left := hBalanced.not_mem_left
    nodup := List.nodup_cons.mpr ⟨hFresh, h.nodup⟩
    closed := by
      intro a ha b hEdge
      rcases List.mem_cons.mp ha with rfl | ha
      · exact List.mem_cons_of_mem _ (hNext b hEdge)
      · exact List.mem_cons_of_mem _ (h.closed a ha b hEdge)
    ordered := by
      refine List.pairwise_cons.mpr ⟨?_, h.ordered⟩
      intro b hb hEdge
      exact hFresh (h.closed b hb key hEdge)
    mem_keys := by
      intro k hk
      rcases List.mem_cons.mp hk with rfl | hk
      · exact hKey
      · exact h.mem_keys k hk }

/-- With the same path, more nodes left are more nodes seen. -/
theorem unseen_le (hp : Progress.Sound g path p) (hq : Progress.Sound g path q)
    (h : p.left ⊆ q.left) : (g.unseen q).length ≤ (g.unseen p).length := by
  apply unseen_le_of_subset
  intro k hk
  rw [hq.mem_seen]
  exact ((hp.mem_seen k).mp hk).imp_right (h ·)

end Progress.Sound

theorem unseen_enter_lt {p : Progress} {key : Nat} (hMem : key ∈ g.keys) (hKey : key ∉ p.seen) :
    (g.unseen { p with seen := key :: p.seen }).length < (g.unseen p).length := by
  have hStep : g.unseen { p with seen := key :: p.seen } =
      (g.unseen p).filter (· ≠ key) := by
    unfold unseen
    rw [List.filter_filter]
    apply List.filter_congr
    intro k _
    simp [not_or]
  rw [hStep]
  apply List.length_filter_lt_length_iff_exists.mpr
  exact ⟨key, by simp [unseen, hMem, hKey], by simp⟩

/-! ## A search leaves what it reaches -/

/-- What a search from a node makes of its progress: it is still sound, nothing is taken back, and
the node was left. -/
structure Progress.Reaches (g : DependencyGraph) (path : List Nat) (key : Nat) (p q : Progress) :
    Prop where
  sound : Progress.Sound g path q
  subset : p.left ⊆ q.left
  mem : key ∈ q.left

/-- The search from one node after another leaves all of them, if the search from each one leaves
that node. -/
theorem foldl_reaches {path : List Nat} {p : Progress} (f : Progress → Nat → Progress)
    (nodes : List Nat) (hp : Progress.Sound g path p)
    (hf : ∀ q key, Progress.Sound g path q → p.left ⊆ q.left → key ∈ nodes →
      Progress.Reaches g path key q (f q key)) :
    Progress.Sound g path (nodes.foldl f p) ∧ p.left ⊆ (nodes.foldl f p).left ∧
      nodes ⊆ (nodes.foldl f p).left := by
  induction nodes generalizing p with
  | nil => exact ⟨hp, List.Subset.refl _, List.nil_subset _⟩
  | cons key rest ih =>
    have hFirst := hf p key hp (List.Subset.refl _) List.mem_cons_self
    obtain ⟨hSound, hSubset, hRest⟩ := ih hFirst.sound fun q key' hq hLeft hMem =>
      hf q key' hq (List.Subset.trans hFirst.subset hLeft) (List.mem_cons_of_mem _ hMem)
    exact ⟨hSound, List.Subset.trans hFirst.subset hSubset,
      List.cons_subset.mpr ⟨hSubset hFirst.mem, hRest⟩⟩

/-- A node that was seen and is reached by the whole path was left, for else it would lie on the
path and close a loop. -/
theorem Progress.Sound.mem_left {path : List Nat} {p : Progress} {key : Nat} (hg : g.Acyclic)
    (h : Progress.Sound g path p) (hPath : ∀ a ∈ path, Relation.TransGen g.Edge a key)
    (hSeen : key ∈ p.seen) : key ∈ p.left :=
  ((h.mem_seen key).mp hSeen).resolve_left fun hMem => hg key (hPath key hMem)

/-- A search leaves its node if it may go as deep as there are nodes that it has not seen. -/
theorem leave_reaches (hg : g.Acyclic) (hw : g.WellFormed) {depth key : Nat} {path : List Nat}
    {p : Progress} (hp : Progress.Sound g path p) (hKey : key ∈ g.keys)
    (hPath : ∀ a ∈ path, Relation.TransGen g.Edge a key) (hDepth : (g.unseen p).length ≤ depth) :
    Progress.Reaches g path key p (g.leave depth p key) := by
  induction depth generalizing path key p with
  | zero =>
    have hSeen := mem_seen_of_unseen_le hKey hDepth
    exact ⟨hp, List.Subset.refl _, hp.mem_left hg hPath hSeen⟩
  | succ depth ih =>
    rw [leave]
    split
    · rename_i hSeen
      exact ⟨hp, List.Subset.refl _, hp.mem_left hg hPath (by simpa using hSeen)⟩
    · rename_i hUnseen
      have hFresh : key ∉ p.seen := by simpa using hUnseen
      have hEnter := hp.enter hFresh
      have hLess := unseen_enter_lt hKey hFresh
      obtain ⟨hSound, hSubset, hNext⟩ := foldl_reaches (g.leave depth)
        (g.dependents key).reverse hEnter fun q next hq hLeft hMem => by
          have hEdge : g.Edge key next := mem_dependents.mp (List.mem_reverse.mp hMem)
          refine ih hq (hw.mem_keys key next hEdge).2 (fun a ha => ?_) ?_
          · rcases List.mem_cons.mp ha with rfl | ha
            · exact .single hEdge
            · exact (hPath a ha).tail hEdge
          · have := hEnter.unseen_le hq hLeft
            omega
      have hOff : key ∉ path := fun hMem => hFresh ((hp.mem_seen key).mpr (.inl hMem))
      refine ⟨hSound.exit hOff hKey fun b hEdge => ?_, ?_, List.mem_cons_self⟩
      · exact hNext (List.mem_reverse.mpr (mem_dependents.mpr hEdge))
      · exact List.subset_cons_of_subset _ hSubset

/-! ## Topological orders -/

/-- A list of all nodes, each once, in which no node leads to an earlier one. -/
structure Topological (g : DependencyGraph) (order : List Nat) : Prop where
  nodup : order.Nodup
  mem_iff : ∀ k, k ∈ order ↔ k ∈ g.keys
  ordered : order.Pairwise fun a b => ¬ g.Edge b a

theorem Acyclic.topological_order (hg : g.Acyclic) (hw : g.WellFormed) :
    g.Topological g.order := by
  obtain ⟨hSound, -, hAll⟩ := foldl_reaches (g.leave g.size) g.keys
    (Progress.sound_start g) fun q key hq _ hMem =>
      leave_reaches hg hw hq hMem (fun a ha => absurd ha List.not_mem_nil)
        (g.length_unseen_le_size q)
  exact ⟨hSound.nodup, fun k => ⟨hSound.mem_keys k, fun hMem => hAll hMem⟩, hSound.ordered⟩

namespace Topological

variable {order : List Nat}

/-- What stands before a node in the list holds all its dependencies. -/
theorem mem_before (h : g.Topological order) (hg : g.Acyclic) (hw : g.WellFormed)
    {before after : List Nat} {i j : Nat} (hSplit : order = before ++ i :: after)
    (hEdge : g.Edge j i) : j ∈ before := by
  have hMem : j ∈ order := (h.mem_iff j).mpr (hw.mem_keys j i hEdge).1
  have hOrdered := h.ordered
  rw [hSplit] at hMem hOrdered
  rcases List.mem_append.mp hMem with hBefore | hRest
  · exact hBefore
  · rcases List.mem_cons.mp hRest with rfl | hAfter
    · exact absurd hEdge (hg.not_edge_self j)
    · have := (List.pairwise_cons.mp (List.pairwise_append.mp hOrdered).2.1).1 j hAfter
      exact absurd hEdge this

/-- No node is a dependency of one that stands before it. -/
theorem not_edge_of_mem_before (h : g.Topological order) {before after : List Nat} {i k : Nat}
    (hSplit : order = before ++ i :: after) (hk : k ∈ before) : ¬ g.Edge i k := by
  have hOrdered := h.ordered
  rw [hSplit] at hOrdered
  exact (List.pairwise_append.mp hOrdered).2.2 k hk i List.mem_cons_self

end Topological

theorem precedes_of_pairwise {order : List Nat} {a b : Nat}
    (h : order.Pairwise fun a b => ¬ g.Edge b a) (ha : a ∈ order) (hne : a ≠ b)
    (hEdge : g.Edge a b) : precedes order a b = true := by
  rw [precedes, List.contains_iff_mem]
  induction order with
  | nil => cases ha
  | cons c rest ih =>
    obtain ⟨hHead, hRest⟩ := List.pairwise_cons.mp h
    by_cases hc : c = b
    · subst hc
      rcases List.mem_cons.mp ha with rfl | ha
      · exact absurd rfl hne
      · exact absurd hEdge (hHead a ha)
    · rw [List.takeWhile_cons_of_pos (by simpa using hc)]
      rcases List.mem_cons.mp ha with rfl | ha
      · exact List.mem_cons_self
      · exact List.mem_cons_of_mem _ (ih hRest ha)

/-- An edge between two nodes of a list goes up in it if no edge goes down. -/
theorem idxOf_lt_of_pairwise {order : List Nat} {a b : Nat}
    (h : order.Pairwise fun a b => ¬ g.Edge b a) (ha : a ∈ order) (hb : b ∈ order) (hne : a ≠ b)
    (hEdge : g.Edge a b) : order.idxOf a < order.idxOf b := by
  have hA := List.idxOf_lt_length_of_mem ha
  have hB := List.idxOf_lt_length_of_mem hb
  rcases Nat.lt_trichotomy (order.idxOf a) (order.idxOf b) with hLess | hSame | hMore
  · exact hLess
  · exact absurd ((List.idxOf_inj ha).mp hSame) hne
  · have hAgainst := List.pairwise_iff_getElem.mp h _ _ hB hA hMore
    rw [List.getElem_idxOf hA, List.getElem_idxOf hB] at hAgainst
    exact absurd hEdge hAgainst

/-- No edge of a graph without a loop goes against its order. -/
theorem Acyclic.breach?_eq_none (hg : g.Acyclic) (hw : g.WellFormed) : g.breach? g.order = none := by
  have hTopological := hg.topological_order hw
  rw [breach?, List.find?_eq_none]
  rintro ⟨a, b⟩ hEdge
  have hne : a ≠ b := fun hEq => hg.not_edge_self b (hEq ▸ hEdge)
  have ha : a ∈ g.order := (hTopological.mem_iff a).mpr (hw.mem_keys a b hEdge).1
  simp [precedes_of_pairwise hTopological.ordered ha hne hEdge]

/-- A graph without a loop is checked in a topological order. -/
theorem Acyclic.checkOrder_eq (hg : g.Acyclic) (hw : g.WellFormed) :
    g.checkOrder = (g.order, none) := by
  simp [checkOrder, topologicalOrder, hg.cycle?_eq_none, hg.breach?_eq_none hw]

end Loadout.DependencyGraph
