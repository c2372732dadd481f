import Loadout.Proofs.Formula.Queries
import Loadout.Proofs.Settlement.FirstPass

/-!
# Dependencies that the graph does not know of

The graph of the conditionals has an edge where the bonuses of one name an attribute that the conditions
of another read. A pass does more with a bonus than to add it to its attribute: attack is computed from
three attributes, and the scripts of dynamic buffs compute attributes from each other. So a condition may
depend on a bonus by a detour that no edge tells of.

* `edge_conditionGraph_iff`: the edges are the direct dependencies and nothing else;
* `reach`: the attributes that the bonuses of a conditional may move, found by following every step of a
  pass;
* `agreesOutside_pass`: a flag moves no other attributes;
* `Detour.ends`: where a detour leads to;
* `edge_or_detour`: where toggling a flag matters there is an edge or a detour;
* `covers_of_not_detour`: without detours the graph covers every dependency.
-/

namespace Loadout

/-! ## Edges -/

/-- A fold has the edges it started with and those that its steps add. -/
theorem DependencyGraph.edge_foldl {α : Type} {step : DependencyGraph → α → DependencyGraph}
    {adds : α → Prop} {a b : Nat} (h : ∀ g x, (step g x).Edge a b ↔ g.Edge a b ∨ adds x)
    (l : List α) (g : DependencyGraph) :
    (l.foldl step g).Edge a b ↔ g.Edge a b ∨ ∃ x ∈ l, adds x := by
  induction l generalizing g with
  | nil => simp
  | cons x rest ih => rw [List.foldl_cons, ih, h, List.exists_mem_cons_iff, or_assoc]

namespace Conditional

variable {K : Type}

/-- The attributes that the conditions of a mod read. -/
def reads (c : Conditional K) : List Attribute := c.mod.conditions.filterMap Condition.reads?

/-- The attributes of the character that the bonuses of a conditional are added to. -/
def granted (c : Conditional K) : List Attribute :=
  (Sources.characterGrants ⟨c.scope, c.bonuses⟩).map Prod.fst

/-- What is granted is named by the bonuses. The converse fails for what a weapon keeps to itself. -/
theorem mem_attributes_of_mem_granted {c : Conditional K} {a : Attribute} (h : a ∈ c.granted) :
    a ∈ c.bonuses.attributes := by
  obtain ⟨⟨a', x⟩, hGrant, rfl⟩ := List.mem_map.mp h
  obtain ⟨⟨key, y⟩, hEntry, hEq⟩ := List.mem_filterMap.mp hGrant
  refine List.mem_filterMap.mpr ⟨key, List.mem_map.mpr ⟨(key, y), hEntry, rfl⟩, ?_⟩
  cases key with
  | weapon scope stat => cases hEq
  | character a =>
    dsimp only at hEq
    split at hEq
    · cases hEq
    · cases hEq
      rfl

end Conditional

namespace Sources

section Edges

variable {K : Type}

theorem feeds_iff {writer reader : Conditional K} :
    feeds writer reader = true ↔ ∃ a ∈ reader.reads, a ∈ writer.bonuses.attributes := by
  simp only [feeds, Conditional.reads, List.any_eq_true, List.contains_iff_mem]
  exact ⟨fun ⟨a, hw, hr⟩ => ⟨a, hr, hw⟩, fun ⟨a, hr, hw⟩ => ⟨a, hw, hr⟩⟩

/-- One conditional depends on another in the graph when it reads what the bonuses of the other
name. -/
theorem edge_conditionGraph_iff (s : Sources K) (j i : Nat) :
    s.conditionGraph.Edge j i ↔ ∃ writer reader,
      s.conditionals[j]? = some writer ∧ s.conditionals[i]? = some reader ∧
        feeds writer reader = true := by
  have hNodes (g : DependencyGraph) (c : Conditional K × Nat) :
      (g.addNode c.2 c.1.label).Edge j i ↔ g.Edge j i ∨ False := by
    rw [or_false, DependencyGraph.Edge, DependencyGraph.Edge, DependencyGraph.edges_addNode]
  have hWriter (reader : Conditional K × Nat) (g : DependencyGraph) (writer : Conditional K × Nat) :
      (if feeds writer.1 reader.1 then g.addEdge reader.2 writer.2 else g).Edge j i ↔
        g.Edge j i ∨ (feeds writer.1 reader.1 = true ∧ writer.2 = j ∧ reader.2 = i) := by
    split
    · rename_i hFeeds
      rw [DependencyGraph.edge_addEdge, or_comm, Prod.mk.injEq]
      simp only [hFeeds, true_and, eq_comm]
    · rename_i hFeeds
      simp only [hFeeds, false_and, or_false, Bool.false_eq_true]
  have hReader (g : DependencyGraph) (reader : Conditional K × Nat) :=
    DependencyGraph.edge_foldl (hWriter reader) s.conditionals.zipIdx g
  unfold conditionGraph
  dsimp only
  rw [DependencyGraph.edge_foldl hReader, DependencyGraph.edge_foldl hNodes]
  have hEmpty : ¬ DependencyGraph.empty.Edge j i := List.not_mem_nil
  constructor
  · rintro ((hOld | ⟨-, -, hFalse⟩) | ⟨reader, hr, writer, hw, hFeeds, rfl, rfl⟩)
    · exact absurd hOld hEmpty
    · exact hFalse.elim
    · exact ⟨writer.1, reader.1, List.mem_zipIdx_iff_getElem?.mp hw,
        List.mem_zipIdx_iff_getElem?.mp hr, hFeeds⟩
  · rintro ⟨writer, reader, hw, hr, hFeeds⟩
    exact .inr ⟨(reader, i), List.mem_zipIdx_iff_getElem?.mpr hr, (writer, j),
      List.mem_zipIdx_iff_getElem?.mpr hw, hFeeds, rfl, rfl⟩

end Edges

end Sources

/-! ## What a bonus may move -/

/-- The attributes whose totals the value of an attribute is computed from. -/
def Attribute.inputs : Attribute → List Attribute
  | .attack => [.attack, .elementDamage, .flatAttack]
  | a => [a]

section Spread

variable {K : Type} [Number K]

/-- The attributes that may have another value after a step where `moved` may have before it. A step
that sets its target forgets what the target was. -/
def Step.spread (moved : Attribute → Bool) (step : Step K) : Attribute → Bool := fun a =>
  if step.target = a then step.reads.any moved || (step.op != .set && moved a) else moved a

/-- The attributes that may have another value after a buff was run. -/
def Buff.spread (moved : Attribute → Bool) (b : Buff K) : Attribute → Bool :=
  match b.script with
  | some script => script.steps.foldl Step.spread moved
  | none => moved

/-- Two attribute sets have the same values but for what may have moved. -/
def AttributeSet.AgreesOutside (moved : Attribute → Bool) (s s' : AttributeSet K) : Prop :=
  ∀ a, moved a = false → s.get a = s'.get a

variable {moved : Attribute → Bool} {s s' : AttributeSet K}

theorem AttributeSet.AgreesOutside.runStep (h : s.AgreesOutside moved s') (level : Nat)
    (step : Step K) :
    (Script.runStep level s step).AgreesOutside (Step.spread moved step)
      (Script.runStep level s' step) := by
  intro a ha
  simp only [Script.runStep, AttributeSet.get_set]
  simp only [Step.spread] at ha
  by_cases hTarget : step.target = a
  · rw [if_pos hTarget, Bool.or_eq_false_iff] at ha
    obtain ⟨hReads, hTargetMoved⟩ := ha
    have hValue : step.formula.eval (Script.resolver s level) =
        step.formula.eval (Script.resolver s' level) := by
      apply step.eval_congr
      intro b hb
      exact h b (Bool.eq_false_iff.mpr (List.any_eq_false.mp hReads b hb))
    rw [if_pos hTarget, if_pos hTarget, hValue, hTarget]
    cases hOp : step.op with
    | set => rfl
    | _ =>
      have hSame : s.get a = s'.get a := h a (by simpa [hOp] using hTargetMoved)
      rw [hSame]
  · rw [if_neg hTarget] at ha
    rw [if_neg hTarget, if_neg hTarget]
    exact h a ha

theorem AttributeSet.AgreesOutside.runBuff (h : s.AgreesOutside moved s') (b : Buff K) :
    (Sources.runBuff s b).AgreesOutside (b.spread moved) (Sources.runBuff s' b) := by
  unfold Sources.runBuff Buff.spread
  cases b.script with
  | none => exact h
  | some script =>
    dsimp only
    unfold Script.run
    induction script.steps generalizing moved s s' with
    | nil => exact h
    | cons step rest ih => exact ih (h.runStep b.level step)

theorem AttributeSet.AgreesOutside.runBuffs (h : s.AgreesOutside moved s') (bs : List (Buff K)) :
    (bs.foldl Sources.runBuff s).AgreesOutside (bs.foldl Buff.spread moved)
      (bs.foldl Sources.runBuff s') := by
  induction bs generalizing moved s s' with
  | nil => exact h
  | cons b rest ih => exact ih (h.runBuff b)

omit [Number K] in
theorem Step.foldl_spread_of_not_target {steps : List (Step K)} {a : Attribute}
    (h : ∀ step ∈ steps, step.target ≠ a) (moved : Attribute → Bool) :
    steps.foldl Step.spread moved a = moved a := by
  induction steps generalizing moved with
  | nil => rfl
  | cons step rest ih =>
    rw [List.foldl_cons, ih fun step hStep => h step (List.mem_cons_of_mem _ hStep), Step.spread,
      if_neg (h step List.mem_cons_self)]

omit [Number K] in
/-- Scripts leave an attribute alone that none of their steps sets. -/
theorem Buff.foldl_spread_of_not_target {bs : List (Buff K)} {a : Attribute}
    (h : ∀ b ∈ bs, ∀ script, b.script = some script → ∀ step ∈ script.steps, step.target ≠ a)
    (moved : Attribute → Bool) : bs.foldl Buff.spread moved a = moved a := by
  induction bs generalizing moved with
  | nil => rfl
  | cons b rest ih =>
    rw [List.foldl_cons, ih fun b hb => h b (List.mem_cons_of_mem _ hb), Buff.spread]
    cases hScript : b.script with
    | none => rfl
    | some script => exact Step.foldl_spread_of_not_target (h b List.mem_cons_self script hScript) moved

end Spread

namespace Sources

variable {K : Type} [Number K]

/-- A script of a dynamic buff has a step that sets an attribute. -/
def Scripted (s : Sources K) (a : Attribute) : Prop :=
  ∃ b ∈ s.dynamicBuffs, ∃ script, b.script = some script ∧ ∃ step ∈ script.steps, step.target = a

/-- The attributes that the bonuses of a conditional may move: those with an input that it grants, and
what the scripts make of them. -/
def reach (s : Sources K) (c : Conditional K) : Attribute → Bool :=
  s.dynamicBuffs.foldl Buff.spread fun a => a.inputs.any c.granted.contains

/-- A conditional reads an attribute that the bonuses of another one may move without naming it. -/
def Detour (s : Sources K) (writer reader : Conditional K) : Prop :=
  ∃ a ∈ reader.reads, a ∉ writer.bonuses.attributes ∧ s.reach writer a = true

omit [Number K] in
/-- A detour ends with attack, which has further inputs, or with an attribute that a script sets. -/
theorem Detour.ends {s : Sources K} {writer reader : Conditional K} (h : s.Detour writer reader) :
    ∃ a ∈ reader.reads, a ∉ writer.bonuses.attributes ∧
      (s.Scripted a ∨ a = .attack ∧
        (.elementDamage ∈ writer.granted ∨ .flatAttack ∈ writer.granted)) := by
  obtain ⟨a, ha, hNamed, hReach⟩ := h
  refine ⟨a, ha, hNamed, ?_⟩
  by_cases hScripted : s.Scripted a
  · exact .inl hScripted
  · have hStart : a.inputs.any writer.granted.contains = true := by
      rw [reach, Buff.foldl_spread_of_not_target] at hReach
      · exact hReach
      · intro b hb script hScript step hStep hTarget
        exact hScripted ⟨b, hb, script, hScript, step, hStep, hTarget⟩
    obtain ⟨input, hInput, hGranted⟩ := List.any_eq_true.mp hStart
    rw [List.contains_iff_mem] at hGranted
    have hOther : input ≠ a := by
      rintro rfl
      exact hNamed (Conditional.mem_attributes_of_mem_granted hGranted)
    right
    cases a with
    | attack =>
      simp only [Attribute.inputs, List.mem_cons, List.not_mem_nil, or_false] at hInput
      rcases hInput with rfl | rfl | rfl
      · exact absurd rfl hOther
      · exact ⟨rfl, .inl hGranted⟩
      · exact ⟨rfl, .inr hGranted⟩
    | _ => exact absurd (List.mem_singleton.mp hInput) hOther

/-! ## A pass with one flag toggled -/

theorem get_finalize_congr (s : Sources K) {total total' : Attribute → K} {a : Attribute}
    (h : ∀ b ∈ a.inputs, total b = total' b) : (s.finalize total).get a = (s.finalize total').get a := by
  simp only [finalize, AttributeSet.get_ofFn]
  cases a with
  | attack =>
    have hAttack := h .attack (by decide)
    have hElement := h .elementDamage (by decide)
    have hFlat := h .flatAttack (by decide)
    simp only [hAttack, hElement, hFlat]
  | _ => simp only [h _ (List.mem_singleton.mpr rfl)]

omit [Number K] in
theorem contributions_eq_nil {grants : List (Attribute × K)} {a : Attribute}
    (h : a ∉ grants.map Prod.fst) : contributions grants a = [] := by
  apply List.filterMap_eq_nil_iff.mpr
  intro grant hGrant
  rw [if_neg]
  intro hEq
  exact h (hEq ▸ List.mem_map_of_mem hGrant)

/-- Toggling a flag changes nothing in what is collected of the flagged items when the item of that
flag contributes nothing. -/
theorem flatMap_zip_modify {α β : Type} {f : α → List β} (cs : List α) (flags : List Bool) (j : Nat)
    (h : ∀ c, cs[j]? = some c → f c = []) :
    ((cs.zip (flags.modify j not)).filter (·.2)).flatMap (fun c => f c.1) =
      ((cs.zip flags).filter (·.2)).flatMap (fun c => f c.1) := by
  induction cs generalizing flags j with
  | nil => rfl
  | cons c rest ih =>
    cases flags with
    | nil => simp
    | cons flag flags =>
      cases j with
      | zero =>
        have hc := h c rfl
        cases flag <;> simp [List.modify_cons, hc]
      | succ j =>
        have hRest := ih flags j h
        cases flag <;> simp [hRest]

theorem totals_active_modify (s : Sources K) (flags : List Bool) {j : Nat} {a : Attribute}
    (h : ∀ c, s.conditionals[j]? = some c → a ∉ c.granted) :
    totals ((s.active (flags.modify j not)).flatMap characterGrants) a =
      totals ((s.active flags).flatMap characterGrants) a := by
  have hToggle := flatMap_zip_modify
    (f := fun c : Conditional K => contributions (characterGrants ⟨c.scope, c.bonuses⟩) a)
    s.conditionals flags j fun c hc => contributions_eq_nil (h c hc)
  have hContributions (flags : List Bool) :
      contributions ((s.active flags).flatMap characterGrants) a =
        contributions (s.sources.flatMap characterGrants) a ++
          ((s.conditionals.zip flags).filter (·.2)).flatMap fun c =>
            contributions (characterGrants ⟨c.1.scope, c.1.bonuses⟩) a := by
    simp only [contributions, active, List.flatMap_append, List.filterMap_append,
      List.flatMap_map, List.filterMap_flatMap]
  rw [totals, totals, hContributions, hContributions, hToggle]

/-- A flag moves no attribute out of the reach of its conditional. -/
theorem agreesOutside_pass (s : Sources K) (flags : List Bool) {j : Nat} {c : Conditional K}
    (hc : s.conditionals[j]? = some c) :
    (s.pass (flags.modify j not)).AgreesOutside (s.reach c) (s.pass flags) := by
  unfold pass reach
  dsimp only
  apply AttributeSet.AgreesOutside.runBuffs
  intro a ha
  apply s.get_finalize_congr
  intro b hb
  apply s.totals_active_modify
  intro d hd
  rw [hc] at hd
  cases hd
  simpa using List.any_eq_false.mp ha b hb

/-- A flag that belongs to no conditional changes nothing. -/
theorem pass_modify_of_none (s : Sources K) (flags : List Bool) {j : Nat}
    (h : s.conditionals[j]? = none) : s.pass (flags.modify j not) = s.pass flags := by
  have hActive : s.active (flags.modify j not) = s.active flags := by
    have hToggle := flatMap_zip_modify (f := fun c : Conditional K => [(⟨c.scope, c.bonuses⟩ : Source K)])
      s.conditionals flags j fun c hc => by rw [h] at hc; cases hc
    rw [active, active, List.map_eq_flatMap, List.map_eq_flatMap, hToggle]
  simp only [pass, hActive]

theorem condition_holds_congr {c : Condition K} {s s' : AttributeSet K} (count : Char → Nat)
    (h : ∀ a, c.reads? = some a → s.get a = s'.get a) : c.holds s count = c.holds s' count := by
  obtain ⟨subject, comparison, value⟩ := c
  cases subject with
  | polarity letter => rfl
  | _ =>
    rename_i a
    simp only [Condition.holds, h a rfl]

/-- Conditions hold alike where the attributes they read are the same. -/
theorem holds_congr {c : Conditional K} {s s' : AttributeSet K}
    (h : ∀ a ∈ c.reads, s.get a = s'.get a) : holds c s = holds c s' := by
  rw [Bool.eq_iff_iff]
  simp only [holds, List.all_eq_true]
  refine forall₂_congr fun condition hCondition => ?_
  have hSame : ∀ count, condition.holds s count = condition.holds s' count := by
    intro count
    apply condition_holds_congr
    intro a ha
    exact h a (List.mem_filterMap.mpr ⟨condition, hCondition, ha⟩)
  rw [hSame]

/-- Where a flag matters to a condition, its conditional reaches an attribute that the condition
reads. -/
theorem exists_reach_of_toggle {s : Sources K} {flags : List Bool} {j : Nat} {c : Conditional K}
    (h : holds c (s.pass (flags.modify j not)) ≠ holds c (s.pass flags)) :
    ∃ writer, s.conditionals[j]? = some writer ∧ ∃ a ∈ c.reads, s.reach writer a = true := by
  cases hWriter : s.conditionals[j]? with
  | none => exact absurd (congrArg (holds c) (s.pass_modify_of_none flags hWriter)) h
  | some writer =>
    refine ⟨writer, rfl, ?_⟩
    by_contra hNone
    push Not at hNone
    apply h
    apply holds_congr
    intro a ha
    exact s.agreesOutside_pass flags hWriter a (Bool.eq_false_iff.mpr (hNone a ha))

omit [Number K] in
/-- What is reached is named by the bonuses, and then the graph has the edge, or it is reached by a
detour. -/
theorem edge_or_detour_of_reach {s : Sources K} {i j : Nat} {writer reader : Conditional K}
    (hj : s.conditionals[j]? = some writer) (hi : s.conditionals[i]? = some reader)
    (h : ∃ a ∈ reader.reads, s.reach writer a = true) :
    s.conditionGraph.Edge j i ∨ s.Detour writer reader := by
  obtain ⟨a, ha, hReach⟩ := h
  by_cases hNamed : a ∈ writer.bonuses.attributes
  · left
    exact (s.edge_conditionGraph_iff j i).mpr
      ⟨writer, reader, hj, hi, feeds_iff.mpr ⟨a, ha, hNamed⟩⟩
  · exact .inr ⟨a, ha, hNamed, hReach⟩

/-- Where toggling the flag of one conditional changes whether the conditions of another hold, the graph
has the edge between them, or there is a detour. -/
theorem edge_or_detour {s : Sources K} {flags : List Bool} {i j : Nat} {c : Conditional K}
    (hc : s.conditionals[i]? = some c)
    (h : holds c (s.pass (flags.modify j not)) ≠ holds c (s.pass flags)) :
    s.conditionGraph.Edge j i ∨ ∃ writer, s.conditionals[j]? = some writer ∧ s.Detour writer c := by
  obtain ⟨writer, hWriter, hReach⟩ := exists_reach_of_toggle h
  rcases edge_or_detour_of_reach hWriter hc hReach with hEdge | hDetour
  · exact .inl hEdge
  · exact .inr ⟨writer, hWriter, hDetour⟩

/-- Without detours the graph covers every dependency. -/
theorem covers_of_not_detour {s : Sources K}
    (h : ∀ writer ∈ s.conditionals, ∀ reader ∈ s.conditionals, ¬ s.Detour writer reader) :
    s.Covers := by
  intro flags i j c _ hc hne
  obtain ⟨writer, hWriter, hReach⟩ := exists_reach_of_toggle hne
  have hDetour := h writer (List.mem_of_getElem? hWriter) c (List.mem_of_getElem? hc)
  exact (edge_or_detour_of_reach hWriter hc hReach).resolve_right hDetour

/-! ## A detour of each kind -/

/-- A buff that raises the damage of skills by the elemental damage of the character. -/
def elementToSkill : Buff Float where
  record := {
    name := "", description := "", bonuses := .empty, a := none, b := none
    defaultLevel := none, minLevel := none, maxLevel := none, script := none }
  script := some ⟨[⟨.skillDamage, .add, .property none "属性伤"⟩]⟩
  level := 1
  bonuses := .empty

/-- Grants elemental damage. -/
def elementGiver : Conditional Float := grantWhile 1 .power 1.0 .elementDamage 0.5

/-- Waits for attack, which is computed from elemental damage among others. -/
def attackReader : Conditional Float := grantWhile 2 .attack 400.0 .range 0.5

/-- Waits for the damage of skills, which the buff raises. -/
def skillReader : Conditional Float := grantWhile 3 .skillDamage 0.25 .durability 0.5

def detours : Sources Float where
  character := ⟨300, 100, 100, 100, 100⟩
  sources := []
  conditionals := [elementGiver, attackReader, skillReader]
  dynamicBuffs := [elementToSkill]
  resonanceGain := 0.0
  settings := .default

/-- Both readers look at what the first flag moves. -/
theorem holds_detours (flag : Bool) :
    holds attackReader (detours.pass [flag, false, false]) = flag ∧
      holds skillReader (detours.pass [flag, false, false]) = flag := by
  revert flag
  decide +kernel

/-- Neither of them depends on it in the graph. -/
theorem not_edge_detours (i : Nat) : ¬ detours.conditionGraph.Edge 0 i := by
  have hEdges : detours.conditionGraph.edges = [] := by decide
  rw [DependencyGraph.Edge, hEdges]
  exact List.not_mem_nil

/-- Toggling the first flag matters to both readers. -/
theorem toggle_detours :
    holds attackReader (detours.pass ([false, false, false].modify 0 not)) ≠
        holds attackReader (detours.pass [false, false, false]) ∧
      holds skillReader (detours.pass ([false, false, false].modify 0 not)) ≠
        holds skillReader (detours.pass [false, false, false]) := by
  have hToggle : [false, false, false].modify 0 not = [true, false, false] := rfl
  obtain ⟨hAttack, hSkill⟩ := holds_detours false
  obtain ⟨hAttack', hSkill'⟩ := holds_detours true
  rw [hToggle, hAttack, hSkill, hAttack', hSkill']
  exact ⟨Bool.noConfusion, Bool.noConfusion⟩

/-- Two conditionals depend on a third one without an edge, so the graph does not cover every
dependency. -/
theorem detours_not_covered :
    holds attackReader (detours.pass ([false, false, false].modify 0 not)) ≠
        holds attackReader (detours.pass [false, false, false]) ∧
      holds skillReader (detours.pass ([false, false, false].modify 0 not)) ≠
        holds skillReader (detours.pass [false, false, false]) ∧
      (∀ i, ¬ detours.conditionGraph.Edge 0 i) ∧ ¬ detours.Covers := by
  obtain ⟨hAttack, hSkill⟩ := toggle_detours
  refine ⟨hAttack, hSkill, not_edge_detours, ?_⟩
  intro hCovers
  exact not_edge_detours 1 (hCovers [false, false, false] 1 0 attackReader rfl rfl hAttack)

/-- Both readers are reached by a detour. -/
theorem detour_of_detours :
    detours.Detour elementGiver attackReader ∧ detours.Detour elementGiver skillReader := by
  obtain ⟨hAttack, hSkill⟩ := toggle_detours
  have hGiver {c : Conditional Float}
      (h : ∃ writer, detours.conditionals[0]? = some writer ∧ detours.Detour writer c) :
      detours.Detour elementGiver c := by
    obtain ⟨writer, hWriter, hDetour⟩ := h
    cases hWriter
    exact hDetour
  constructor
  · exact hGiver ((edge_or_detour (i := 1) rfl hAttack).resolve_left (not_edge_detours 1))
  · exact hGiver ((edge_or_detour (i := 2) rfl hSkill).resolve_left (not_edge_detours 2))

end Sources

end Loadout
