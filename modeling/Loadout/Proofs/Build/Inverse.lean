import Loadout.Build.Score
import Loadout.Proofs.Build.Reordering
import Loadout.Proofs.Build.Traced

/-!
# A candidate that is added and taken out

A mod goes behind those of its category, and a buff behind those of its kind. The mod is then the only one of its
id, whatever the category: mods of one id are of one category, and in a category no two have one id. The buff is
the only one of its name, if there was none before. So taking the candidate out finds what was added and nothing
else, and leaves the lists as they were. What is gained by adding it is what taking it out loses, for the same
two scores are compared.

* `unequip?_of_unique`: taking out the mod of an id that no other mod has;
* `unequip?_of_equip`, `removeBuff_of_addBuff`: mods and buffs;
* `gainAdding_eq_gainRemoving`: candidates.
-/

namespace Loadout

theorem PerCategory.set_set_get {α : Type} (p : PerCategory α) (c : ModCategory) (a : α) :
    (p.set c a).set c (p.get c) = p := by
  cases c <;> rfl

namespace Build

variable {K : Type}

/-! ## Mods -/

section

variable {id : Nat} {ms : List (Mod K)} {b : Build K} {c : ModCategory}

theorem without?_eq_none (h : ∀ m ∈ ms, m.id ≠ id) : without? id ms = none := by
  induction ms with
  | nil => rfl
  | cons m rest ih =>
    obtain ⟨hm, hRest⟩ := List.forall_mem_cons.mp h
    rw [without?, if_neg hm, ih hRest]
    rfl

theorem without?_append_singleton (h : ∀ m ∈ ms, m.id ≠ id) {m : Mod K} (hm : m.id = id) :
    without? id (ms ++ [m]) = some ms := by
  induction ms with
  | nil => exact if_pos hm
  | cons n rest ih =>
    obtain ⟨hn, hRest⟩ := List.forall_mem_cons.mp h
    rw [List.cons_append, without?, if_neg hn, ih hRest]
    rfl

/-- The mod of an id is found in the category that it is in, if no other category has one. -/
theorem unequip?_of_unique {rest : List (Mod K)} (h : without? id (b.mods.get c) = some rest)
    (hOther : ∀ c', c' ≠ c → ∀ m ∈ b.mods.get c', m.id ≠ id) :
    b.unequip? id = some { b with mods := b.mods.set c rest } := by
  have hNone (c' : ModCategory) (hc : c' ≠ c) : without? id (b.mods.get c') = none :=
    without?_eq_none (hOther c' hc)
  unfold unequip? ModCategory.all
  cases c with
  | character => simp [h]
  | melee => simp [h, hNone .character]
  | ranged => simp [h, hNone .character, hNone .melee]
  | resonance => simp [h, hNone .character, hNone .melee, hNone .ranged]

end

section

variable [Number K] {d : Database K} {settings : Settings K} {o : BuildOptions K} {b b' : Build K}

/-- A mod that has just been equipped is taken out again, and nothing else is changed. -/
theorem unequip?_of_equip (hd : d.Indexed) (hWell : b.WellFormed) (hBuilt : b.BuiltOn d) {id : Nat}
    {rank : Option Nat} (h : b.equip id rank = .ok b') : b'.unequip? id = some b := by
  have hWell' : b'.WellFormed := hWell.equip id rank b' h
  have hBuilt' : b'.BuiltOn d := hBuilt.equip hd id rank b' h
  obtain ⟨r, m, hRecord, hMod, -, hb'⟩ := ensures_equip b id rank b' h
  obtain rfl : m.record = r := ensures_ofRecord _ _ _ m hMod
  have hId : m.id = id := hd id m.record (hBuilt.database_eq ▸ hRecord)
  have hOwn : b'.mods.get m.record.category = b.mods.get m.record.category ++ [m] := by
    rw [hb']
    exact PerCategory.get_set_self ..
  have hNew : ∀ n ∈ b.mods.get m.record.category, n.id ≠ id := by
    intro n hn
    have hApart := (hWell'.holds m.record.category).apart
    rw [hOwn] at hApart
    exact hId ▸ ((List.pairwise_append.mp hApart).2.2 n hn m (List.mem_singleton_self m)).id
  have hFound := without?_append_singleton hNew hId
  rw [← hOwn] at hFound
  rw [unequip?_of_unique hFound fun c hc n hn hSame => ?_]
  · rw [hb', withOutfit, PerCategory.set_set_get]
  · have hm : m ∈ b'.mods.get m.record.category := by
      rw [hOwn]
      exact List.mem_append_right _ (List.mem_singleton_self m)
    exact hc (hBuilt'.category_eq hWell' hn hm (hSame.trans hId.symm))

/-! ## Buffs -/

/-- A buff that has just been added, and was not there before, is taken out again, and nothing else is changed. -/
theorem removeBuff_of_addBuff (hd : d.Loaded) (hDatabase : b.database = d) {name : String}
    {level : Option Nat} (hNew : b.hasBuff name = false) (h : b.addBuff name level = .ok b') :
    b'.hasBuff name = true ∧ b'.removeBuff name = b := by
  obtain ⟨f, hMakes, hAdded⟩ := ensures_addBuff b name level b' h
  have hName : f.name = name := hd.buff_name (hDatabase ▸ hMakes.record)
  simp only [hasBuff, List.any_append, Bool.or_eq_false_iff, List.any_eq_false, beq_iff_eq] at hNew
  obtain ⟨hStatic, hDynamic⟩ := hNew
  have hKept : b.buffs.filter (·.name != name) = b.buffs :=
    List.filter_eq_self.mpr fun g hg => bne_iff_ne.mpr (hStatic g hg)
  have hKept' : b.dynamicBuffs.filter (·.name != name) = b.dynamicBuffs :=
    List.filter_eq_self.mpr fun g hg => bne_iff_ne.mpr (hDynamic g hg)
  rcases hAdded with ⟨-, rfl⟩ | ⟨-, rfl⟩
  · simp [hasBuff, removeBuff, hKept, hKept', hName]
  · simp [hasBuff, removeBuff, hKept, hKept', hName]

/-! ## Candidates -/

/-- What is gained by adding a candidate is what the build with it would lose without it, and to take the candidate
out gives the build back as it was. A buff is a candidate if there is none of its name. -/
theorem gainAdding_eq_gainRemoving (hd : d.Loaded) (h : ofOptions d settings o = .ok b)
    (changes : List (Change K)) {c : Candidate} (hAdd : (b.runAll changes).addCandidate c = .ok b')
    (hNew : ∀ name level, c = .buff name level → (b.runAll changes).hasBuff name = false) :
    b'.removeCandidate? c = some (b.runAll changes) ∧
      (b.runAll changes).gainAdding c = b'.gainRemoving c := by
  have hBuilt : (b.runAll changes).BuiltOn d := builtOn_runAll hd.indexed h changes
  have hRemove : b'.removeCandidate? c = some (b.runAll changes) := by
    cases c with
    | mod id rank => exact unequip?_of_equip hd.indexed (wellFormed_runAll h changes).1 hBuilt hAdd
    | buff name level =>
      obtain ⟨hHas, hSame⟩ := removeBuff_of_addBuff hd hBuilt.database_eq (hNew name level rfl) hAdd
      exact (if_pos hHas).trans (congrArg some hSame)
  refine ⟨hRemove, ?_⟩
  rw [gainAdding, hAdd, gainRemoving, hRemove]

end

/-! ## A mod that is in the aura as well, and a buff -/

open scoped Exact

theorem loaded_duel : duel.Loaded where
  characters := ⟨[fencer], rfl, rfl⟩
  weapons := ⟨[rapier], rfl, rfl⟩
  mods := ⟨_, rfl⟩
  buffs := ⟨_, rfl⟩
  monsters := ⟨[], rfl⟩

/-- A mod is taken out of its category and stays in the aura; a buff goes where it came from. -/
theorem gainAdding_eq_gainRemoving_duel : ∃ start b b', ofOptions duel .default dueling = .ok start ∧
    start.addCandidate (.mod 4 none) = .ok b ∧ b.removeCandidate? (.mod 4 none) = some start ∧
    start.gainAdding (.mod 4 none) = b.gainRemoving (.mod 4 none) ∧ start.aura.map Mod.id = some 4 ∧
    (start.runAll [.equip 4 none]).addCandidate (.buff "激励" none) = .ok b' ∧
    b'.removeCandidate? (.buff "激励" none) = some (start.runAll [.equip 4 none]) ∧
    (start.runAll [.equip 4 none]).gainAdding (.buff "激励" none) = b'.gainRemoving (.buff "激励" none) ∧
    b.gainRemoving (.mod 4 none) = 2 / 5 ∧ b'.gainRemoving (.buff "激励" none) = 2 / 101 := by
  have hStart : ofOptions duel .default dueling = .ok _ := rfl
  have hMod := gainAdding_eq_gainRemoving loaded_duel hStart [] (c := .mod 4 none) rfl fun _ _ h => by cases h
  have hBuff := gainAdding_eq_gainRemoving loaded_duel hStart [.equip 4 none] (c := .buff "激励" none) rfl
    fun _ _ h => by cases h; rfl
  refine ⟨_, _, _, hStart, rfl, hMod.1, hMod.2, rfl, rfl, hBuff.1, hBuff.2, ?_⟩
  decide +kernel

end Build

end Loadout
