import Loadout.Build.Exclusion
import Mathlib.Data.List.Perm.Basic

/-!
# What an exclusion state rules out

A state describes a list of mods if it answers for them: how many there are of an id, which full
names occur, and of which series there is an exclusive mod. This holds of the state that is built
from the list, mod by mod, and it is all that admission depends on. When a mod leaves, what it has brought is taken
out without asking whether another one has brought it too. Among mods that are apart none has, and those that were
admitted one after another are.

* `Describes.insert`, `describes_ofMods`: a state describes the mods that went into it;
* `Describes.admits_iff`: it admits the mods that are apart from all of them;
* `Describes.remove`: it describes the others when a mod has left that is apart from them;
* `Kept.describes`: a state stays true to the mods that are there while mods come and go;
* `Kept.answers_eq_ofMods`: so it need not be built afresh.
-/

namespace Loadout

variable {K : Type}

/-- Two mods that may be in one category. -/
structure ModRecord.Apart (m n : ModRecord K) : Prop where
  id : m.id ≠ n.id
  fullName : m.fullName ≠ n.fullName
  series : m.exclusive = true → n.exclusive = true → m.series ≠ n.series

theorem ModRecord.Apart.symm {m n : ModRecord K} (h : m.Apart n) : n.Apart m where
  id := h.id.symm
  fullName := h.fullName.symm
  series hn hm := (h.series hm hn).symm

namespace Exclusion

theorem mem_adjoin {α : Type} [DecidableEq α] {a b : α} {set : List α} :
    a ∈ adjoin b set ↔ a ∈ set ∨ b = a := by
  unfold adjoin
  split
  · next hb =>
    constructor
    · exact .inl
    · rintro (ha | rfl)
      · exact ha
      · exact hb
  · rw [List.mem_cons, or_comm, eq_comm]

/-- A state that knows of some mods and of no others. -/
structure Describes (e : Exclusion) (ms : List (ModRecord K)) : Prop where
  count_eq : ∀ id, e.count id = ms.countP fun m => m.id = id
  mem_names : ∀ name, name ∈ e.names ↔ ∃ m ∈ ms, m.fullName = name
  mem_series : ∀ s, s ∈ e.series ↔ ∃ m ∈ ms, m.exclusive = true ∧ m.series = s

theorem describes_empty : empty.Describes ([] : List (ModRecord K)) where
  count_eq _ := rfl
  mem_names _ := by simp [empty]
  mem_series _ := by simp [empty]

variable {e : Exclusion} {ms : List (ModRecord K)}

theorem count_insert (e : Exclusion) (m : ModRecord K) (id : Nat) :
    (e.insert m).count id = e.count id + if m.id = id then 1 else 0 := by
  simp only [count, Table.findD, insert, Table.find?_alter]
  split
  · next h =>
    subst h
    rfl
  · rfl

theorem Describes.insert (h : e.Describes ms) (m : ModRecord K) :
    (e.insert m).Describes (ms ++ [m]) where
  count_eq id := by
    rw [count_insert, h.count_eq, List.countP_append, List.countP_singleton]
    simp only [decide_eq_true_eq]
  mem_names name := by
    have hNames : (e.insert m).names = adjoin m.fullName e.names := rfl
    rw [hNames, mem_adjoin, h.mem_names]
    simp only [List.mem_append, List.mem_singleton, or_and_right, exists_or, exists_eq_left]
  mem_series s := by
    have hSeries : (e.insert m).series =
        if m.exclusive then adjoin m.series e.series else e.series := rfl
    rw [hSeries]
    simp only [List.mem_append, List.mem_singleton, or_and_right, exists_or, exists_eq_left]
    split
    · next hm => rw [mem_adjoin, h.mem_series, hm, eq_self_iff_true, true_and]
    · next hm => rw [h.mem_series, or_iff_left (fun hm' => hm hm'.1)]

theorem describes_ofMods (ms : List (ModRecord K)) : (ofMods ms).Describes ms := by
  suffices h : ∀ {e : Exclusion} {before : List (ModRecord K)}, e.Describes before →
      (ms.foldl Exclusion.insert e).Describes (before ++ ms) from h describes_empty
  induction ms with
  | nil =>
    intro e before hBefore
    rw [List.append_nil]
    exact hBefore
  | cons m rest ih =>
    intro e before hBefore
    rw [List.foldl_cons, List.append_cons]
    exact ih (hBefore.insert m)

theorem Describes.count_pos_iff (h : e.Describes ms) (id : Nat) :
    0 < e.count id ↔ ∃ m ∈ ms, m.id = id := by
  rw [h.count_eq, List.countP_pos_iff]
  simp only [decide_eq_true_eq]

theorem Describes.admits_iff (h : e.Describes ms) (r : ModRecord K) :
    e.admits r = true ↔ ∀ m ∈ ms, m.Apart r := by
  have hAdmits : e.admits r = true ↔ ¬ 0 < e.count r.id ∧ r.fullName ∉ e.names ∧
      (r.exclusive = true → r.series ∉ e.series) := by
    unfold admits
    cases r.exclusive <;> simp [and_assoc]
  rw [hAdmits, h.count_pos_iff, h.mem_names, h.mem_series]
  constructor
  · rintro ⟨hId, hName, hSeries⟩ m hm
    exact ⟨fun h => hId ⟨m, hm, h⟩, fun h => hName ⟨m, hm, h⟩,
      fun hme hre hs => hSeries hre ⟨m, hm, hme, hs⟩⟩
  · intro hApart
    refine ⟨?_, ?_, ?_⟩
    · rintro ⟨m, hm, hId⟩
      exact (hApart m hm).id hId
    · rintro ⟨m, hm, hName⟩
      exact (hApart m hm).fullName hName
    · rintro hre ⟨m, hm, hme, hs⟩
      exact (hApart m hm).series hme hre hs

/-! ## Keeping a state up to date -/

theorem mem_discard {α : Type} [DecidableEq α] {a b : α} {set : List α} :
    a ∈ discard b set ↔ a ∈ set ∧ a ≠ b := by
  rw [discard, List.mem_filter, decide_eq_true_eq]

theorem count_remove (e : Exclusion) (m : ModRecord K) (id : Nat) :
    (e.remove m).count id = e.count id - if m.id = id then 1 else 0 := by
  simp only [count, Table.findD, remove, Table.find?_map]
  cases e.counts.find? id with
  | none => simp
  | some n =>
    by_cases h : id = m.id
    · simp [h]
    · simp [h, Ne.symm h]

/-- What a state knows of some mods does not depend on their order. -/
theorem Describes.perm {ms' : List (ModRecord K)} (h : e.Describes ms) (hPerm : ms.Perm ms') :
    e.Describes ms' where
  count_eq id := (h.count_eq id).trans (hPerm.countP_eq _)
  mem_names name := (h.mem_names name).trans (exists_congr fun _ => and_congr_left' hPerm.mem_iff)
  mem_series s := (h.mem_series s).trans (exists_congr fun _ => and_congr_left' hPerm.mem_iff)

/-- A mod that is apart from the others takes with it only what it has brought itself. -/
theorem Describes.remove {m : ModRecord K} (h : e.Describes (m :: ms)) (hApart : ∀ n ∈ ms, m.Apart n) :
    (e.remove m).Describes ms where
  count_eq id := by
    rw [count_remove, h.count_eq, List.countP_cons]
    simp only [decide_eq_true_eq, Nat.add_sub_cancel]
  mem_names name := by
    have hNames : (e.remove m).names = discard m.fullName e.names := rfl
    rw [hNames, mem_discard, h.mem_names, List.exists_mem_cons_iff]
    constructor
    · rintro ⟨rfl | hRest, hOther⟩
      · exact absurd rfl hOther
      · exact hRest
    · rintro ⟨n, hn, rfl⟩
      exact ⟨.inr ⟨n, hn, rfl⟩, (hApart n hn).fullName.symm⟩
  mem_series s := by
    have hSeries : (e.remove m).series =
        if m.exclusive then discard m.series e.series else e.series := rfl
    rw [hSeries]
    split
    · next hm =>
      rw [mem_discard, h.mem_series, List.exists_mem_cons_iff]
      constructor
      · rintro ⟨⟨-, rfl⟩ | hRest, hOther⟩
        · exact absurd rfl hOther
        · exact hRest
      · rintro ⟨n, hn, hExclusive, rfl⟩
        exact ⟨.inr ⟨n, hn, hExclusive, rfl⟩, ((hApart n hn).series hm hExclusive).symm⟩
    · next hm =>
      rw [h.mem_series, List.exists_mem_cons_iff, or_iff_right fun hOwn => hm hOwn.1]

/-- States that describe the same mods give the same answers. -/
theorem Describes.answers_eq {e' : Exclusion} (h : e.Describes ms) (h' : e'.Describes ms) :
    (∀ r : ModRecord K, e.admits r = e'.admits r) ∧ ∀ id, e.count id = e'.count id := by
  refine ⟨fun r => ?_, fun id => (h.count_eq id).trans (h'.count_eq id).symm⟩
  rw [Bool.eq_iff_iff, h.admits_iff, h'.admits_iff]

/-- A state that has been kept up to date from no mods on, and the mods that are there by now. A mod joins
behind the others when the state admits it, and any mod that is there may leave. -/
inductive Kept : Exclusion → List (ModRecord K) → Prop
  | start : Kept empty []
  | join {e : Exclusion} {ms : List (ModRecord K)} (m : ModRecord K) (h : Kept e ms)
      (admitted : e.admits m = true) : Kept (e.insert m) (ms ++ [m])
  | leave {e : Exclusion} {before after : List (ModRecord K)} (m : ModRecord K)
      (h : Kept e (before ++ m :: after)) : Kept (e.remove m) (before ++ after)

/-- Mods that were admitted one at a time are apart, which is what the next one to leave asks for. -/
theorem Kept.describes (h : Kept e ms) : e.Describes ms ∧ ms.Pairwise ModRecord.Apart := by
  induction h with
  | start => exact ⟨describes_empty, .nil⟩
  | join m _ admitted ih =>
    obtain ⟨hDescribes, hApart⟩ := ih
    refine ⟨hDescribes.insert m, List.pairwise_append.mpr ⟨hApart, List.pairwise_singleton _ _, ?_⟩⟩
    intro n hn m' hm'
    rw [List.mem_singleton.mp hm']
    exact (hDescribes.admits_iff m).mp admitted n hn
  | leave m _ ih =>
    obtain ⟨hDescribes, hApart⟩ := ih
    obtain ⟨hOthers, hRest⟩ := List.pairwise_cons.mp
      (List.perm_middle.pairwise hApart fun hApart => hApart.symm)
    exact ⟨(hDescribes.perm List.perm_middle).remove hOthers, hRest⟩

/-- A state that has been kept up to date gives the same answers as one that is built afresh from the mods that
are there, in whatever order. -/
theorem Kept.answers_eq_ofMods (h : Kept e ms) {ms' : List (ModRecord K)} (hPerm : ms'.Perm ms) :
    (∀ r : ModRecord K, e.admits r = (ofMods ms').admits r) ∧
      ∀ id, e.count id = (ofMods ms').count id :=
  h.describes.1.answers_eq ((describes_ofMods ms').perm hPerm)

/-- A mod of one series. -/
def griffin (id : Nat) (name : String) (exclusive : Bool) : ModRecord Float where
  id := id
  name := name
  series := "狮鹫"
  quality := .gold
  tolerance := 10
  category := .character
  polarity := none
  element := none
  restriction := none
  exclusive := exclusive
  bonuses := .empty
  conditional := none

/-- Two exclusive mods of the series take turns beside one that is not exclusive. The first of them is ruled out
by the series of the other one, and by nothing that it left behind. -/
theorem answers_eq_ofMods_griffins :
    let first := griffin 1 "甲" true
    let second := griffin 2 "乙" false
    let third := griffin 3 "丙" true
    let e := (((empty.insert first).insert second).remove first).insert third
    Kept e [second, third] ∧ [third, second].Perm [second, third] ∧
      e.admits first = (ofMods [third, second]).admits first ∧
      e.count 1 = (ofMods [third, second]).count 1 ∧
      e.admits first = false ∧ e.count 1 = 0 ∧ (e.remove third).admits first = true := by
  intro first second third e
  have hBoth : Kept ((empty.insert first).insert second) [first, second] :=
    (Kept.start.join first rfl).join second rfl
  have hSecond : Kept (((empty.insert first).insert second).remove first) ([] ++ [second]) := .leave first hBoth
  have hKept : Kept e [second, third] := hSecond.join third rfl
  have hPerm : [third, second].Perm [second, third] := .swap second third []
  obtain ⟨hAdmits, hCount⟩ := hKept.answers_eq_ofMods hPerm
  exact ⟨hKept, hPerm, hAdmits first, hCount 1, rfl, rfl, rfl⟩

end Exclusion

end Loadout
