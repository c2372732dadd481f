import Loadout.Proofs.DependencyGraph.Order

/-!
# A search that ends without a loop

That a search reports a loop only where there is one does not say that it finds every loop. A search
that ends without a report has left every node, and it leaves a node only after all that the node leads
to. So the nodes as they were left are a ranking that every edge goes up in, and no graph with a loop
has one.

* `Cleared`: how far a search without a report has come. No node that was left leads to itself, which
  the order of those left does not rule out;
* `visit_ok`, `search_ok`: a search without a report has left its node, and the whole search all nodes;
* `WellFormed.cycle?_eq_none_iff`: no loop is reported just when there is none.
-/

namespace Loadout.DependencyGraph

variable {g : DependencyGraph}

/-- The nodes visited are those on the path and those that were left soundly, and no node that was left
leads to itself. -/
structure Cleared (g : DependencyGraph) (path visited left : List Nat) : Prop where
  sound : Progress.Sound g path ⟨visited, left⟩
  not_self : ∀ a ∈ left, ¬ g.Edge a a

theorem cleared_start (g : DependencyGraph) : g.Cleared [] [] [] :=
  ⟨Progress.sound_start g, by simp⟩

namespace Cleared

variable {path visited left : List Nat} {key : Nat}

theorem enter (h : g.Cleared path visited left) (hKey : key ∉ visited) :
    g.Cleared (key :: path) (key :: visited) left :=
  ⟨h.sound.enter hKey, h.not_self⟩

/-- A node that leads to left nodes only does not lead to itself, for it is not one of them yet. -/
theorem exit (h : g.Cleared (key :: path) visited left) (hPath : key ∉ path) (hKey : key ∈ g.keys)
    (hNext : ∀ b, g.Edge key b → b ∈ left) : g.Cleared path visited (key :: left) := by
  refine ⟨h.sound.exit hPath hKey hNext, ?_⟩
  intro a ha hEdge
  rcases List.mem_cons.mp ha with rfl | ha
  · exact h.sound.not_mem_left a List.mem_cons_self (hNext a hEdge)
  · exact h.not_self a ha hEdge

/-- If all nodes were left, their places rank the graph. -/
theorem acyclic (h : g.Cleared path visited left) (hw : g.WellFormed) (hAll : g.keys ⊆ left) :
    g.Acyclic := by
  apply acyclic_of_rank left.idxOf
  intro a b hEdge
  obtain ⟨ha, hb⟩ := hw.mem_keys a b hEdge
  have hne : a ≠ b := fun hEq => h.not_self b (hAll hb) (hEq ▸ hEdge)
  exact idxOf_lt_of_pairwise h.sound.ordered (hAll ha) (hAll hb) hne hEdge

end Cleared

/-! ## What a search without a report has left -/

/-- A fold over nodes that ends without an error keeps what holds of every step that does. -/
theorem foldlM_cleared {path visited visited' left nodes : List Nat}
    {f : List Nat → Nat → Except (List Nat) (List Nat)}
    (h : nodes.foldlM f visited = .ok visited') (hCleared : g.Cleared path visited left)
    (hf : ∀ seen seen' done key, key ∈ nodes → f seen key = .ok seen' → g.Cleared path seen done →
      left ⊆ done → ∃ done', g.Cleared path seen' done' ∧ done ⊆ done' ∧ key ∈ done') :
    ∃ left', g.Cleared path visited' left' ∧ left ⊆ left' ∧ nodes ⊆ left' := by
  induction nodes generalizing visited left with
  | nil =>
    cases h
    exact ⟨left, hCleared, List.Subset.refl _, List.nil_subset _⟩
  | cons key rest ih =>
    rw [List.foldlM_cons] at h
    cases hStep : f visited key with
    | error loop =>
      rw [hStep] at h
      cases h
    | ok seen =>
      rw [hStep] at h
      obtain ⟨done, hDone, hSubset, hKey⟩ :=
        hf _ _ _ key List.mem_cons_self hStep hCleared (List.Subset.refl _)
      obtain ⟨left', hLeft, hMore, hRest⟩ := ih h hDone fun seen seen' done' next hMem hNext hNow hLe =>
        hf seen seen' done' next (List.mem_cons_of_mem _ hMem) hNext hNow
          (List.Subset.trans hSubset hLe)
      exact ⟨left', hLeft, List.Subset.trans hSubset hMore, List.cons_subset.mpr ⟨hMore hKey, hRest⟩⟩

/-- A search from a new node that ends without a report has left the node, if it may go as deep as there
are nodes that it has not seen. -/
theorem visit_ok (hw : g.WellFormed) {depth key : Nat} {path visited visited' left : List Nat}
    (h : g.visit depth path visited key = .ok visited') (hCleared : g.Cleared path visited left)
    (hFresh : key ∉ visited) (hKey : key ∈ g.keys)
    (hDepth : (g.unseen ⟨visited, left⟩).length ≤ depth) :
    ∃ left', g.Cleared path visited' left' ∧ left ⊆ left' ∧ key ∈ left' := by
  induction depth generalizing path visited visited' left key with
  | zero =>
    exact absurd (mem_seen_of_unseen_le hKey hDepth) hFresh
  | succ depth ih =>
    have hEnter := hCleared.enter hFresh
    have hLess := unseen_enter_lt (p := ⟨visited, left⟩) hKey hFresh
    rw [visit] at h
    obtain ⟨left', hLeft, hMore, hAll⟩ := foldlM_cleared h hEnter
      fun seen seen' done next hMem hStep hNow hLe => by
        have hEdge : g.Edge key next := mem_dependents.mp hMem
        split at hStep
        · rename_i hNew
          refine ih hStep hNow (by simpa using hNew) (hw.mem_keys key next hEdge).2 ?_
          have := hEnter.sound.unseen_le hNow.sound hLe
          dsimp only at hLess this
          omega
        · rename_i hSeen
          split at hStep
          · cases hStep
          · rename_i hOff
            cases hStep
            -- a node that was seen and does not lie on the path was left
            have hMemSeen : next ∈ seen := by simpa using hSeen
            have hDone := ((hNow.sound.mem_seen next).mp hMemSeen).resolve_left (by simpa using hOff)
            exact ⟨done, hNow, List.Subset.refl _, hDone⟩
    have hOff : key ∉ path := fun hMem => hFresh ((hCleared.sound.mem_seen key).mpr (.inl hMem))
    refine ⟨key :: left', hLeft.exit hOff hKey fun b hEdge => hAll (mem_dependents.mpr hEdge), ?_,
      List.mem_cons_self⟩
    exact List.subset_cons_of_subset _ hMore

/-- A search without a report has left all nodes. -/
theorem search_ok (hw : g.WellFormed) {visited : List Nat} (h : g.search = .ok visited) :
    ∃ left, g.Cleared [] visited left ∧ g.keys ⊆ left := by
  obtain ⟨left, hCleared, -, hAll⟩ := foldlM_cleared h (cleared_start g)
    fun seen seen' done key hMem hStep hNow _ => by
      split at hStep
      · rename_i hSeen
        cases hStep
        have hDone := ((hNow.sound.mem_seen key).mp (by simpa using hSeen)).resolve_left (by simp)
        exact ⟨done, hNow, List.Subset.refl _, hDone⟩
      · rename_i hNew
        exact visit_ok hw hStep hNow (by simpa using hNew) hMem (g.length_unseen_le_size _)
  exact ⟨left, hCleared, hAll⟩

/-! ## Loops are found -/

/-- A loop is reported just when there is one. -/
theorem WellFormed.cycle?_eq_none_iff (hw : g.WellFormed) : g.cycle? = none ↔ g.Acyclic := by
  refine ⟨fun h => ?_, Acyclic.cycle?_eq_none⟩
  unfold cycle? at h
  split at h
  · rename_i visited hOk
    obtain ⟨left, hCleared, hAll⟩ := search_ok hw hOk
    exact hCleared.acyclic hw hAll
  · cases h

end Loadout.DependencyGraph
