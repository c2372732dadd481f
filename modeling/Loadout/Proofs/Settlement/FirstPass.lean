import Loadout.Number.Binary
import Loadout.Proofs.DependencyGraph.Order
import Loadout.Proofs.Settlement.Coherence
import Mathlib.Data.List.Induction

/-!
# When the first pass settles everything

The first pass checks each conditional once, in the order of the dependency graph. If the graph has
no loop and knows of every way in which the flag of one conditional matters to another, one check of
each is enough: what is checked later is no dependency of what was checked before, so no later flip
can undo an earlier check.

* `Covers`: every semantic dependency is an edge;
* `Covers.holds_congr`: conditions depend on the flags of dependencies alone, so the flags in
  between may be exchanged one after another;
* `Settled.sweepStep`, `Settled.sweep`: after a part of the order all its flags agree;
* `settle_of_acyclic`: one pass, and no other flags agree with their conditions.
-/

namespace Loadout.Sources

variable {K : Type}

/-! ## The graph of the conditionals -/

theorem mem_keys_foldl_addNode {α : Type} (key : α → Nat) (label : α → String) (l : List α)
    (g : DependencyGraph) (k : Nat) :
    k ∈ (l.foldl (fun g a => g.addNode (key a) (label a)) g).keys ↔
      k ∈ g.keys ∨ k ∈ l.map key := by
  induction l generalizing g with
  | nil => simp
  | cons a rest ih =>
    rw [List.foldl_cons, ih, DependencyGraph.mem_keys_addNode, List.map_cons, List.mem_cons,
      or_assoc]

/-- The nodes of the graph are the places of the conditionals. -/
structure OverPlaces (s : Sources K) (g : DependencyGraph) : Prop where
  wellFormed : g.WellFormed
  mem_keys_iff : ∀ k, k ∈ g.keys ↔ k < s.conditionals.length

theorem OverPlaces.addEdge {s : Sources K} {g : DependencyGraph} (h : s.OverPlaces g) {i j : Nat}
    (hi : i < s.conditionals.length) (hj : j < s.conditionals.length) :
    s.OverPlaces (g.addEdge i j) := by
  refine ⟨h.wellFormed.addEdge i j, ?_⟩
  intro k
  rw [DependencyGraph.keys_addEdge_of_mem ((h.mem_keys_iff i).mpr hi) ((h.mem_keys_iff j).mpr hj)]
  exact h.mem_keys_iff k

theorem overPlaces_conditionGraph (s : Sources K) : s.OverPlaces s.conditionGraph := by
  have hPlace : ∀ c ∈ s.conditionals.zipIdx, c.2 < s.conditionals.length := fun c hc =>
    (List.mem_zipIdx' hc).1
  unfold conditionGraph
  dsimp only
  refine List.foldlRecOn _ _ ⟨?_, fun k => ?_⟩ fun g hg reader hReader => ?_
  · exact List.foldlRecOn _ _ DependencyGraph.wellFormed_empty fun g hg c _ => hg.addNode _ _
  · rw [mem_keys_foldl_addNode]
    simp [DependencyGraph.empty, DependencyGraph.keys, List.zipIdx_map_snd]
  · refine List.foldlRecOn _ _ hg fun g hg writer hWriter => ?_
    split
    · exact hg.addEdge (hPlace reader hReader) (hPlace writer hWriter)
    · exact hg

/-! ## Semantic dependencies -/

variable [Number K]

/-- Whenever toggling one flag changes whether the conditions of a mod hold, the graph has the edge
by which the mod depends on the toggled one. -/
def Covers (s : Sources K) : Prop :=
  ∀ (flags : List Bool) (i j : Nat) (c : Conditional K),
    flags.length = s.conditionals.length → s.conditionals[i]? = some c →
    holds c (s.pass (flags.modify j not)) ≠ holds c (s.pass flags) → s.conditionGraph.Edge j i

/-- The first flags of one list and the other flags of another one. -/
def mixed (k : Nat) (first other : List Bool) : List Bool := first.take k ++ other.drop k

theorem length_mixed (k : Nat) {v w : List Bool} (h : w.length = v.length) :
    (mixed k w v).length = v.length := by
  simp only [mixed, List.length_append, List.length_take, List.length_drop]
  omega

theorem getElem?_mixed (k i : Nat) {v w : List Bool} (h : w.length = v.length) :
    (mixed k w v)[i]? = if i < k then w[i]? else v[i]? := by
  unfold mixed
  rw [List.getElem?_append, List.length_take, List.getElem?_take, List.getElem?_drop]
  by_cases hk : i < k
  · by_cases hLength : i < w.length
    · rw [if_pos (by omega), if_pos hk, if_pos hk]
    · rw [if_neg (by omega), if_pos hk, List.getElem?_eq_none (by omega),
        List.getElem?_eq_none (by omega)]
  · rw [if_neg (by omega), if_neg hk]
    by_cases hLength : k ≤ w.length
    · congr 1
      omega
    · rw [List.getElem?_eq_none (by omega), List.getElem?_eq_none (by omega)]

/-- Taking one more flag over changes nothing or toggles it. -/
theorem mixed_succ (k : Nat) {v w : List Bool} (h : w.length = v.length) :
    mixed (k + 1) w v = mixed k w v ∨
      (w[k]? ≠ v[k]? ∧ mixed (k + 1) w v = (mixed k w v).modify k not) := by
  by_cases hk : w[k]? = v[k]?
  · left
    apply List.ext_getElem?
    intro i
    rw [getElem?_mixed _ _ h, getElem?_mixed _ _ h]
    by_cases hi : i = k
    · rw [hi, if_pos (by omega), if_neg (by omega), hk]
    · have hIff : i < k + 1 ↔ i < k := by omega
      simp only [hIff]
  · refine .inr ⟨hk, ?_⟩
    apply List.ext_getElem?
    intro i
    rw [List.getElem?_modify, getElem?_mixed _ _ h, getElem?_mixed _ _ h]
    by_cases hi : i = k
    · rw [hi, if_pos (by omega), if_neg (by omega)]
      by_cases hLength : k < w.length
      · rw [List.getElem?_eq_getElem hLength, List.getElem?_eq_getElem (by omega)] at hk ⊢
        simp only [Option.some.injEq, Option.map_eq_map, Option.map_some, if_true] at hk ⊢
        revert hk
        cases w[k] <;> cases v[k] <;> simp
      · rw [List.getElem?_eq_none (by omega), List.getElem?_eq_none (by omega)]
        rfl
    · have hIff : i < k + 1 ↔ i < k := by omega
      simp [hIff, Ne.symm hi]

/-- The conditions of a mod depend on the flags of its dependencies alone. -/
theorem Covers.holds_congr {s : Sources K} (hs : s.Covers) {v w : List Bool} {i : Nat}
    {c : Conditional K} (hv : v.length = s.conditionals.length)
    (hw : w.length = s.conditionals.length) (hc : s.conditionals[i]? = some c)
    (h : ∀ j, s.conditionGraph.Edge j i → w[j]? = v[j]?) :
    holds c (s.pass w) = holds c (s.pass v) := by
  have hLength : w.length = v.length := hw.trans hv.symm
  -- The flags of `w` are taken over one after another.
  have hMixed (k : Nat) : holds c (s.pass (mixed k w v)) = holds c (s.pass v) := by
    induction k with
    | zero => rfl
    | succ k ih =>
      rcases mixed_succ k hLength with hSame | ⟨hDiffer, hToggle⟩
      · rw [hSame, ih]
      · rw [hToggle, ← ih]
        by_contra hne
        exact hDiffer (h k (hs _ i k c ((length_mixed k hLength).trans hv) hc hne))
  have hAll : mixed w.length w v = w := by
    rw [mixed, List.take_length, hLength, List.drop_length, List.append_nil]
  rw [← hMixed w.length, hAll]

/-! ## The sweep -/

/-- The flags of the conditionals checked so far agree with the attributes. -/
structure Settled (s : Sources K) (done : List Nat) (state : FlagState K) : Prop where
  fresh : s.Fresh state
  agrees : ∀ i ∈ done, ∀ c, s.conditionals[i]? = some c →
    state.flags[i]? = some (holds c state.attributes)

/-- What does not depend on a conditional does not see its flag. -/
theorem Covers.holds_set {s : Sources K} (hs : s.Covers) {flags : List Bool} {i k : Nat}
    {c : Conditional K} (hLength : flags.length = s.conditionals.length)
    (hc : s.conditionals[k]? = some c) (hNot : ¬ s.conditionGraph.Edge i k) (flag : Bool) :
    holds c (s.pass (flags.set i flag)) = holds c (s.pass flags) := by
  have hLength' : (flags.set i flag).length = s.conditionals.length := by
    rw [List.length_set, hLength]
  apply hs.holds_congr hLength hLength' hc
  intro j hEdge
  apply List.getElem?_set_ne
  intro hEq
  rw [hEq] at hNot
  exact hNot hEdge

/-- A check settles its conditional and unsettles none that does not depend on it. -/
theorem Settled.sweepStep {s : Sources K} (hs : s.Covers) {done : List Nat} {state : FlagState K}
    (h : s.Settled done state) {i : Nat} (hNone : ∀ k ∈ done ++ [i], ¬ s.conditionGraph.Edge i k) :
    s.Settled (done ++ [i]) (s.sweepStep state i) := by
  have hLength := h.fresh.length_flags
  refine ⟨h.fresh.sweepStep i, ?_⟩
  intro k hk c hc
  have hDone : k ∈ done ∨ k = i := by
    rcases List.mem_append.mp hk with hk | hk
    · exact .inl hk
    · exact .inr (List.mem_singleton.mp hk)
  unfold Sources.sweepStep
  cases hi : s.conditionals[i]? with
  | none =>
    rcases hDone with hk | rfl
    · exact h.agrees k hk c hc
    · rw [hi] at hc
      cases hc
  | some d =>
    dsimp only
    split
    · rename_i hFlag
      rcases hDone with hk | rfl
      · exact h.agrees k hk c hc
      · rw [hi] at hc
        cases hc
        exact hFlag
    · -- The flag is flipped, which the conditions of what has been checked do not see.
      have hHolds := hs.holds_set hLength hc (hNone k hk) (holds d state.attributes)
      rw [← h.fresh.attributes_eq] at hHolds
      change (state.flags.set i (holds d state.attributes))[k]? =
        some (holds c (s.pass (state.flags.set i (holds d state.attributes))))
      rw [hHolds]
      by_cases hki : i = k
      · subst hki
        rw [hi] at hc
        cases hc
        have hPlace : i < s.conditionals.length := (List.getElem?_eq_some_iff.mp hi).1
        exact List.getElem?_set_self (hLength ▸ hPlace)
      · rw [List.getElem?_set_ne hki]
        exact h.agrees k (hDone.resolve_right (Ne.symm hki)) c hc

/-- Along an order in which nothing depends on what comes later, the sweep settles one conditional
after another. -/
theorem Settled.sweep {s : Sources K} (hs : s.Covers) {done : List Nat} {state : FlagState K}
    (h : s.Settled done state) (todo : List Nat)
    (hOrder : ∀ before i after, done ++ todo = before ++ i :: after →
      ∀ k ∈ before ++ [i], ¬ s.conditionGraph.Edge i k) :
    s.Settled (done ++ todo) (s.sweep todo state) := by
  induction todo generalizing done state with
  | nil =>
    rw [List.append_nil]
    exact h
  | cons i rest ih =>
    have hSplit : done ++ i :: rest = done ++ [i] ++ rest := by simp
    rw [hSplit] at hOrder ⊢
    exact ih (h.sweepStep hs (hOrder done i rest hSplit.symm)) hOrder

/-- The first pass ends at flags that agree. -/
theorem isStable_firstPass {s : Sources K} (hs : s.Covers) (hg : s.conditionGraph.Acyclic) :
    s.isStable s.firstPass = true := by
  have hPlaces := s.overPlaces_conditionGraph
  have hTopological := hg.topological_order hPlaces.wellFormed
  have hInitial : s.Settled [] s.initial :=
    ⟨s.fresh_initial, fun i hi => absurd hi List.not_mem_nil⟩
  have hOrder : ∀ before i after, s.conditionGraph.order = before ++ i :: after →
      ∀ k ∈ before ++ [i], ¬ s.conditionGraph.Edge i k := by
    intro before i after hSplit k hk
    rcases List.mem_append.mp hk with hk | hk
    · exact hTopological.not_edge_of_mem_before hSplit hk
    · rw [List.mem_singleton.mp hk]
      exact hg.not_edge_self i
  have hSettled := hInitial.sweep hs s.conditionGraph.order hOrder
  rw [firstPass, hg.checkOrder_eq hPlaces.wellFormed]
  apply (isStable_iff _ hSettled.fresh.length_flags).mpr
  intro i c hc
  apply hSettled.agrees i _ c hc
  rw [List.nil_append, hTopological.mem_iff, hPlaces.mem_keys_iff]
  exact (List.getElem?_eq_some_iff.mp hc).1

/-! ## Stable flags -/

theorem length_of_isStable {s : Sources K} {flags : List Bool}
    (h : s.isStable (s.stateOf flags) = true) : flags.length = s.conditionals.length := by
  rw [isStable, beq_iff_eq] at h
  have hLength := congrArg List.length h
  rw [length_wanted] at hLength
  exact hLength.symm

theorem getElem?_of_isStable {s : Sources K} {flags : List Bool}
    (h : s.isStable (s.stateOf flags) = true) {i : Nat} {c : Conditional K}
    (hc : s.conditionals[i]? = some c) : flags[i]? = some (holds c (s.pass flags)) :=
  (isStable_iff (s.stateOf flags) (length_of_isStable h)).mp h i c hc

/-- There is at most one choice of flags that agree, since the flags of the dependencies of a
conditional determine its own. The induction is on how much of the order has been gone through. -/
theorem Covers.eq_of_isStable {s : Sources K} (hs : s.Covers) (hg : s.conditionGraph.Acyclic)
    {v w : List Bool} (hv : s.isStable (s.stateOf v) = true)
    (hw : s.isStable (s.stateOf w) = true) : w = v := by
  have hPlaces := s.overPlaces_conditionGraph
  have hTopological := hg.topological_order hPlaces.wellFormed
  have hPrefix (l rest : List Nat) (hSplit : s.conditionGraph.order = l ++ rest) :
      ∀ i ∈ l, w[i]? = v[i]? := by
    induction l using List.reverseRecOn generalizing rest with
    | nil => exact fun i hi => absurd hi List.not_mem_nil
    | append_singleton before i ih =>
      have hSplit' : s.conditionGraph.order = before ++ i :: rest := by simpa using hSplit
      have hBefore := ih (i :: rest) hSplit'
      intro k hk
      rcases List.mem_append.mp hk with hk | hk
      · exact hBefore k hk
      · rw [List.mem_singleton.mp hk]
        have hPlace : i < s.conditionals.length := by
          rw [← hPlaces.mem_keys_iff, ← hTopological.mem_iff, hSplit']
          simp
        have hc := List.getElem?_eq_getElem hPlace
        have hHolds : holds s.conditionals[i] (s.pass w) = holds s.conditionals[i] (s.pass v) := by
          apply hs.holds_congr (length_of_isStable hv) (length_of_isStable hw) hc
          intro j hEdge
          exact hBefore j (hTopological.mem_before hg hPlaces.wellFormed hSplit' hEdge)
        rw [getElem?_of_isStable hw hc, getElem?_of_isStable hv hc, hHolds]
  apply List.ext_getElem?
  intro i
  by_cases hi : i < s.conditionals.length
  · refine hPrefix s.conditionGraph.order [] (List.append_nil _).symm i ?_
    rw [hTopological.mem_iff, hPlaces.mem_keys_iff]
    exact hi
  · rw [List.getElem?_eq_none (by rw [length_of_isStable hw]; omega),
      List.getElem?_eq_none (by rw [length_of_isStable hv]; omega)]

/-- With a graph that has no loop and covers every dependency, the first pass is the last one, and
its flags are the only ones that agree with their conditions. -/
theorem settle_of_acyclic {s : Sources K} (hne : s.conditionals ≠ [])
    (hg : s.conditionGraph.Acyclic) (hs : s.Covers) :
    s.settle.passes = 1 ∧ s.settle.converged = true ∧
      ∀ flags, s.isStable (s.stateOf flags) = true ↔ flags = s.settle.flags := by
  obtain ⟨hPasses, hFlags, -, hConverged⟩ := settle_of_ne_nil hne
  have hStable := isStable_firstPass hs hg
  have hRun : s.run = (1, s.firstPass) := by
    unfold run
    cases s.passLimit - 1 with
    | zero => rfl
    | succ left => rw [settleFrom, if_pos hStable]
  have hState : s.stateOf s.settle.flags = s.run.2 := by
    rw [hFlags, stateOf, ← s.fresh_run.attributes_eq]
  have hSettled : s.isStable (s.stateOf s.settle.flags) = true := by
    rw [hState, hRun]
    exact hStable
  refine ⟨?_, ?_, ?_⟩
  · rw [hPasses, hRun]
  · rw [hConverged, ← hState]
    exact hSettled
  · intro flags
    constructor
    · intro h
      exact hs.eq_of_isStable hg hSettled h
    · intro h
      rw [h]
      exact hSettled

/-! ## A chain of two -/

/-- A mod that grants some of one attribute while another one has reached a bound. -/
def grantWhile (id : Nat) (read : Attribute) (bound : Float) (written : Attribute)
    (amount : Float) : Conditional Float where
  label := toString id
  mod := {
    record := {
      id := id, name := toString id, series := "", quality := .gold, tolerance := 0
      category := .character, polarity := none, element := none, restriction := none
      exclusive := false, bonuses := .empty, conditional := none }
    effect := none
    conditions := [⟨.attribute read, .ge, bound⟩]
    rank := 10
    stats := ⟨.empty, .empty, 0⟩ }
  scope := .character
  siblings := []
  bonuses := Bonuses.empty.add (.character written) amount

/-- Durability starts at 1, so the second mod may count on the power that the first one grants. -/
def chain : Sources Float where
  character := ⟨100, 100, 100, 100, 100⟩
  sources := []
  conditionals := [grantWhile 1 .power 1.25 .range 0.5, grantWhile 2 .durability 1.0 .power 0.5]
  dynamicBuffs := []
  resonanceGain := 0.0
  settings := .default

theorem acyclic_chain : chain.conditionGraph.Acyclic := by
  have hEdges : chain.conditionGraph.edges = [(1, 0)] := by decide
  apply DependencyGraph.acyclic_of_rank (1 - ·)
  intro a b hEdge
  rw [DependencyGraph.Edge, hEdges, List.mem_singleton] at hEdge
  cases hEdge
  decide

/-- Whether a condition of the chain holds depends on the second flag at most. -/
theorem holds_chain (a b : Bool) :
    holds (grantWhile 1 .power 1.25 .range 0.5) (chain.pass [a, b]) = b ∧
      holds (grantWhile 2 .durability 1.0 .power 0.5) (chain.pass [a, b]) = true := by
  revert a b
  decide

theorem exists_modify_pair (a b : Bool) {j : Nat} (hj : j ≠ 1) :
    ∃ a', [a, b].modify j not = [a', b] := by
  match j with
  | 0 => exact ⟨!a, rfl⟩
  | 1 => exact absurd rfl hj
  | j + 2 => exact ⟨a, List.modify_eq_self (Nat.le_add_left _ _)⟩

theorem covers_chain : chain.Covers := by
  intro flags i j c hLength hc hne
  obtain ⟨a, b, rfl⟩ := List.length_eq_two.mp hLength
  by_cases hj : j = 1
  · subst hj
    match i, hc with
    | 0, _ => exact (by decide : (1, 0) ∈ chain.conditionGraph.edges)
    | 1, hc =>
      obtain rfl : grantWhile 2 .durability 1.0 .power 0.5 = c := Option.some.inj hc
      have hToggle : [a, b].modify 1 not = [a, !b] := rfl
      rw [hToggle, (holds_chain a (!b)).2, (holds_chain a b).2] at hne
      exact absurd rfl hne
  · obtain ⟨a', hToggle⟩ := exists_modify_pair a b hj
    rw [hToggle] at hne
    match i, hc with
    | 0, hc =>
      obtain rfl : grantWhile 1 .power 1.25 .range 0.5 = c := Option.some.inj hc
      rw [(holds_chain a' b).1, (holds_chain a b).1] at hne
      exact absurd rfl hne
    | 1, hc =>
      obtain rfl : grantWhile 2 .durability 1.0 .power 0.5 = c := Option.some.inj hc
      rw [(holds_chain a' b).2, (holds_chain a b).2] at hne
      exact absurd rfl hne

/-- The second mod is checked before the first one, and both are active after one pass. -/
theorem settle_chain :
    chain.conditionals ≠ [] ∧ chain.conditionGraph.Acyclic ∧ chain.Covers ∧
      chain.settle.passes = 1 ∧ chain.settle.converged = true ∧
      ∀ flags, chain.isStable (chain.stateOf flags) = true ↔ flags = [true, true] := by
  have hne : chain.conditionals ≠ [] := by decide
  have hFlags : chain.settle.flags = [true, true] := by decide +kernel
  obtain ⟨hPasses, hConverged, hOnly⟩ := settle_of_acyclic hne acyclic_chain covers_chain
  exact ⟨hne, acyclic_chain, covers_chain, hPasses, hConverged, hFlags ▸ hOnly⟩

end Loadout.Sources
