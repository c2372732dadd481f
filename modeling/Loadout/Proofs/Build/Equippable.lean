import Loadout.Number.Binary
import Loadout.Proofs.Build.Refill
import Mathlib.Data.List.Perm.Basic

/-!
# Mods are equipped in any order

Mods that are equipped one after another are checked against those that are there by then. What all these
checks ask for together does not mention an order: every mod is known and its conditions can be read, it
fits, and what each category comes to has room in it and is pairwise apart (`Build.Equippable`). Being apart is
symmetric, so mods that can be equipped in one order can be equipped in any other, and every category comes to
hold the same mods.

* `equipAll_eq_ok_iff`: mods can be equipped just when the build with all of them is well formed;
* `exists_equipAll_iff`: the same, said of their records;
* `equipAll_perm`: another order;
* `equipAll_confluent`: all of it, for every build that can be made.
-/

namespace Loadout

variable {K : Type}

/-- The records of the mods that are chosen, those left out that are not known. -/
def Database.chosen (d : Database K) (choices : List ModChoice) : List (ModRecord K) :=
  choices.filterMap fun choice => d.mods.find? choice.id

namespace Build

/-- Mods by category with some more behind them, each in its own. -/
def joinMods (p : PerCategory (List (Mod K))) (ms : List (Mod K)) : PerCategory (List (Mod K)) :=
  let joined (c : ModCategory) := p.get c ++ ms.filter fun m => m.category = c
  ⟨joined .character, joined .melee, joined .ranged, joined .resonance⟩

/-- The records of the mods of a category once those that are chosen have joined them. -/
def joinedRecords (b : Build K) (choices : List ModChoice) (c : ModCategory) : List (ModRecord K) :=
  (b.mods.get c).map Mod.record ++ (b.database.chosen choices).filter fun r => r.category = c

/-- Mods may join those of a build: all are known, can be read and fit, and those that are there and those that
join are apart from one another in each category, of which there are no more than it has slots. -/
structure Equippable (b : Build K) (choices : List ModChoice) : Prop where
  known : ∀ choice ∈ choices, ∃ r, b.database.mod choice.id = .ok r
  readable : ∀ r ∈ b.database.chosen choices, ∃ conditions, Mod.conditionsOf r = .ok conditions
  fits : ∀ r ∈ b.database.chosen choices, b.fits r = true
  apart : ∀ c, (b.joinedRecords choices c).Pairwise ModRecord.Apart
  length_le : ∀ c : ModCategory, (b.joinedRecords choices c).length ≤ c.cap

variable {b b' : Build K} {choices choices' : List ModChoice}

/-! ## What the categories come to hold -/

@[simp] theorem get_joinMods (p : PerCategory (List (Mod K))) (ms : List (Mod K)) (c : ModCategory) :
    (joinMods p ms).get c = p.get c ++ ms.filter fun m => m.category = c := by
  cases c <;> rfl

theorem joinMods_nil (p : PerCategory (List (Mod K))) : joinMods p [] = p := by
  apply PerCategory.ext_get
  intro c
  rw [get_joinMods, List.filter_nil, List.append_nil]

/-- The first mod may be put in place before the others. -/
theorem joinMods_cons (p : PerCategory (List (Mod K))) (m : Mod K) (ms : List (Mod K)) :
    joinMods p (m :: ms) = joinMods (p.set m.category (p.get m.category ++ [m])) ms := by
  apply PerCategory.ext_get
  intro c
  rw [get_joinMods, get_joinMods]
  by_cases hc : m.category = c
  · subst hc
    rw [PerCategory.get_set_self, List.filter_cons_of_pos (by simp), List.append_assoc,
      List.singleton_append]
  · rw [PerCategory.get_set_of_ne _ hc, List.filter_cons_of_neg (by simpa using hc)]

/-- Another order of the mods that join changes the order in each category and nothing else. -/
theorem joinMods_perm (p : PerCategory (List (Mod K))) {ms ns : List (Mod K)} (h : ms.Perm ns)
    (c : ModCategory) : ((joinMods p ms).get c).Perm ((joinMods p ns).get c) := by
  rw [get_joinMods, get_joinMods]
  exact (h.filter _).append_left _

/-- The mods of a category may stand in any order. -/
theorem WellFormed.of_perm (h : b.WellFormed) (hFits : b'.fits = b.fits)
    (hMods : ∀ c, (b.mods.get c).Perm (b'.mods.get c)) : b'.WellFormed where
  holds c := {
    length_le := (hMods c).length_eq ▸ (h.holds c).length_le
    category_eq := fun m hm => (h.holds c).category_eq m ((hMods c).mem_iff.mpr hm)
    apart := (hMods c).pairwise (h.holds c).apart fun hApart => hApart.symm }
  fits c m hm := by
    rw [hFits]
    exact h.fits c m ((hMods c).mem_iff.mpr hm)

/-- A build with more mods is well formed when the build was and the mods may join it. -/
theorem wellFormed_joinMods_iff (hWell : b.WellFormed) (ms : List (Mod K)) :
    ({ b with mods := joinMods b.mods ms } : Build K).WellFormed ↔ (∀ m ∈ ms, b.fits m.record = true) ∧
      (∀ c, (((joinMods b.mods ms).get c).map Mod.record).Pairwise ModRecord.Apart) ∧
      ∀ c : ModCategory, (((joinMods b.mods ms).get c).map Mod.record).length ≤ c.cap := by
  constructor
  · intro h
    refine ⟨fun m hm => ?_, fun c => List.pairwise_map.mpr (h.holds c).apart, fun c => ?_⟩
    · refine h.fits m.category m ?_
      rw [get_joinMods]
      exact List.mem_append_right _ (List.mem_filter.mpr ⟨hm, decide_eq_true rfl⟩)
    · rw [List.length_map]
      exact (h.holds c).length_le
  · rintro ⟨hFits, hApart, hLength⟩
    refine ⟨fun c => ⟨?_, ?_, List.pairwise_map.mp (hApart c)⟩, fun c m hm => ?_⟩
    · have hCap := hLength c
      rwa [List.length_map] at hCap
    · intro m hm
      rcases List.mem_append.mp (get_joinMods b.mods ms c ▸ hm) with hm | hm
      · exact (hWell.holds c).category_eq m hm
      · exact of_decide_eq_true (List.mem_filter.mp hm).2
    · rcases List.mem_append.mp (get_joinMods b.mods ms c ▸ hm) with hm | hm
      · exact hWell.fits c m hm
      · exact hFits m (List.mem_filter.mp hm).1

/-! ## One after another -/

section

variable [Number K]

/-- Mods can be equipped one after another just when the build that has all of them is well formed. -/
theorem equipAll_eq_ok_iff (hWell : b.WellFormed) : b.equipAll choices = .ok b' ↔
    ∃ ms, List.Forall₂ (fun choice m => choice.Makes b.database m) choices ms ∧
      ({ b with mods := joinMods b.mods ms } : Build K).WellFormed ∧
      { b with mods := joinMods b.mods ms } = b' := by
  constructor
  · intro h
    induction choices generalizing b with
    | nil =>
      cases h
      refine ⟨[], .nil, ?_⟩
      rw [joinMods_nil]
      exact ⟨hWell, rfl⟩
    | cons choice rest ih =>
      rw [equipAll, List.foldlM_cons] at h
      obtain ⟨b₁, hEquip, hRest⟩ := bind_eq_ok_iff.mp h
      have hWell₁ := hWell.equip choice.id choice.rank b₁ hEquip
      obtain ⟨r, m, hRecord, hMod, -, rfl⟩ := ensures_equip b choice.id choice.rank b₁ hEquip
      obtain rfl : m.record = r := ensures_ofRecord _ _ _ m hMod
      obtain ⟨ms, hMakes, hJoined⟩ := ih hWell₁ hRest
      refine ⟨m :: ms, .cons ⟨hRecord, hMod⟩ hMakes, ?_⟩
      rw [joinMods_cons]
      exact hJoined
  · rintro ⟨ms, hMakes, hJoined, rfl⟩
    exact equipAll_eq_ok rfl hMakes (get_joinMods b.mods ms) hJoined.holds
      ((wellFormed_joinMods_iff hWell ms).mp hJoined).1

/-! ## What the checks ask for -/

omit [Number K] in
theorem chosen_cons {d : Database K} {choice : ModChoice} {r : ModRecord K}
    (h : d.mod choice.id = .ok r) : d.chosen (choice :: choices) = r :: d.chosen choices :=
  List.filterMap_cons_some (f := fun choice : ModChoice => d.mods.find? choice.id)
    (Database.find?_of_mod_eq_ok h)

theorem chosen_eq {d : Database K} {ms : List (Mod K)}
    (h : List.Forall₂ (fun choice m => choice.Makes d m) choices ms) :
    d.chosen choices = ms.map Mod.record := by
  induction h with
  | nil => rfl
  | cons hHead _ ih => rw [chosen_cons hHead.record, List.map_cons, ih]

theorem joinedRecords_eq {ms : List (Mod K)}
    (h : List.Forall₂ (fun choice m => choice.Makes b.database m) choices ms) (c : ModCategory) :
    b.joinedRecords choices c = ((joinMods b.mods ms).get c).map Mod.record := by
  rw [joinedRecords, chosen_eq h, get_joinMods, List.map_append, List.filter_map]
  rfl

/-- Mods can be made just when all of them are known and the conditions of all of them can be read. -/
theorem exists_makes_iff {d : Database K} :
    (∃ ms, List.Forall₂ (fun choice m => choice.Makes d m) choices ms) ↔
      (∀ choice ∈ choices, ∃ r, d.mod choice.id = .ok r) ∧
        ∀ r ∈ d.chosen choices, ∃ conditions, Mod.conditionsOf r = .ok conditions := by
  induction choices with
  | nil => exact ⟨fun _ => ⟨by simp, by simp [Database.chosen]⟩, fun _ => ⟨[], .nil⟩⟩
  | cons choice rest ih =>
    constructor
    · rintro ⟨ms, hMakes⟩
      obtain ⟨m, ms, hMake, hRest, rfl⟩ := List.forall₂_cons_left_iff.mp hMakes
      obtain ⟨hKnown, hReadable⟩ := ih.mp ⟨ms, hRest⟩
      obtain ⟨conditions, hConditions, -⟩ := Mod.ofRecord_eq_ok_iff.mp hMake.ofRecord
      rw [chosen_cons hMake.record]
      exact ⟨List.forall_mem_cons.mpr ⟨⟨m.record, hMake.record⟩, hKnown⟩,
        List.forall_mem_cons.mpr ⟨⟨conditions, hConditions⟩, hReadable⟩⟩
    · rintro ⟨hKnown, hReadable⟩
      obtain ⟨⟨r, hRecord⟩, hKnown⟩ := List.forall_mem_cons.mp hKnown
      rw [chosen_cons hRecord] at hReadable
      obtain ⟨⟨conditions, hConditions⟩, hReadable⟩ := List.forall_mem_cons.mp hReadable
      obtain ⟨ms, hRest⟩ := ih.mpr ⟨hKnown, hReadable⟩
      let m := Mod.make r (d.effect? r.name) conditions (choice.rank.getD r.quality.maxRank)
      have hMake : choice.Makes d m :=
        ⟨hRecord, Mod.ofRecord_eq_ok_iff.mpr ⟨conditions, hConditions, rfl⟩⟩
      exact ⟨m :: ms, .cons hMake hRest⟩

/-- What the checks ask for one after another is what all records are asked for together. -/
theorem exists_equipAll_iff (hWell : b.WellFormed) :
    (∃ b', b.equipAll choices = .ok b') ↔ b.Equippable choices := by
  constructor
  · rintro ⟨b', h⟩
    obtain ⟨ms, hMakes, hJoined, -⟩ := (equipAll_eq_ok_iff hWell).mp h
    obtain ⟨hKnown, hReadable⟩ := exists_makes_iff.mp ⟨ms, hMakes⟩
    obtain ⟨hFits, hApart, hLength⟩ := (wellFormed_joinMods_iff hWell ms).mp hJoined
    simp only [← joinedRecords_eq hMakes] at hApart hLength
    refine ⟨hKnown, hReadable, ?_, hApart, hLength⟩
    intro r hr
    rw [chosen_eq hMakes] at hr
    obtain ⟨m, hm, rfl⟩ := List.mem_map.mp hr
    exact hFits m hm
  · intro h
    obtain ⟨ms, hMakes⟩ := exists_makes_iff.mpr ⟨h.known, h.readable⟩
    have hFits : ∀ m ∈ ms, b.fits m.record = true := by
      intro m hm
      apply h.fits
      rw [chosen_eq hMakes]
      exact List.mem_map_of_mem hm
    have hJoined : ({ b with mods := joinMods b.mods ms } : Build K).WellFormed := by
      rw [wellFormed_joinMods_iff hWell ms]
      simp only [← joinedRecords_eq hMakes]
      exact ⟨hFits, h.apart, h.length_le⟩
    exact ⟨_, (equipAll_eq_ok_iff hWell).mpr ⟨ms, hMakes, hJoined, rfl⟩⟩

/-! ## Another order -/

/-- Mods that have been equipped can be equipped in any order, and each category then holds the same ones. -/
theorem equipAll_perm (hWell : b.WellFormed) (hPerm : choices.Perm choices')
    (h : b.equipAll choices = .ok b') : ∃ mods, b.equipAll choices' = .ok { b' with mods := mods } ∧
      ∀ c, (b'.mods.get c).Perm (mods.get c) := by
  obtain ⟨ms, hMakes, hJoined, rfl⟩ := (equipAll_eq_ok_iff hWell).mp h
  obtain ⟨ns, hMakes', hns⟩ := List.perm_comp_forall₂ hPerm.symm hMakes
  have hSame := joinMods_perm b.mods hns.symm
  have hJoined' : ({ b with mods := joinMods b.mods ns } : Build K).WellFormed := hJoined.of_perm rfl hSame
  exact ⟨joinMods b.mods ns, (equipAll_eq_ok_iff hWell).mpr ⟨ns, hMakes', hJoined', rfl⟩, hSame⟩

/-- Whatever has been done to a build before, mods can be equipped one after another just when all of them are
known and can be read, all fit, and what each category comes to is pairwise apart and no more than it has slots
for. Neither whether they can be nor what each category then holds depends on their order. -/
theorem equipAll_confluent {d : Database K} {settings : Settings K} {o : BuildOptions K} {start : Build K}
    (h : ofOptions d settings o = .ok start) (changes : List (Change K))
    (hb : start.runAll changes = b) (choices : List ModChoice) :
    ((∃ b', b.equipAll choices = .ok b') ↔ b.Equippable choices) ∧
      ∀ choices', choices.Perm choices' →
        ((∃ b', b.equipAll choices = .ok b') ↔ ∃ b', b.equipAll choices' = .ok b') ∧
          ∀ b', b.equipAll choices = .ok b' → ∃ mods,
            b.equipAll choices' = .ok { b' with mods := mods } ∧
              ∀ c, (b'.mods.get c).Perm (mods.get c) := by
  have hWell : b.WellFormed := hb ▸ (ensures_ofOptions d settings o start h).runAll changes
  have hOrder {xs ys : List ModChoice} (hPerm : xs.Perm ys) (hx : ∃ b', b.equipAll xs = .ok b') :
      ∃ b', b.equipAll ys = .ok b' := by
    obtain ⟨b', hb'⟩ := hx
    obtain ⟨mods, hMods, -⟩ := equipAll_perm hWell hPerm hb'
    exact ⟨_, hMods⟩
  refine ⟨exists_equipAll_iff hWell, ?_⟩
  intro choices' hPerm
  exact ⟨⟨hOrder hPerm, hOrder hPerm.symm⟩, fun b' => equipAll_perm hWell hPerm⟩

end

/-! ## Three mods of one series -/

/-- Two exclusive mods of a series and one that is not. -/
def crowded : Database Float :=
  { armory with
    mods := .ofList [(4, exclusiveMod 4 "迅捷" (some "太刀")), (5, exclusiveMod 5 "坚韧" none),
      (6, { exclusiveMod 6 "敏锐" none with exclusive := false })] }

/-- An exclusive mod goes with the one that is not, in either order, and the two exclusive ones do not go
together in any. -/
theorem equipAll_confluent_crowded : ∃ start b b', ofOptions crowded .default swordsman = .ok start ∧
    start.runAll [.clear .melee] = b ∧ b.equipAll [⟨4, none⟩, ⟨6, some 3⟩] = .ok b' ∧
    (∃ mods, b.equipAll [⟨6, some 3⟩, ⟨4, none⟩] = .ok { b' with mods := mods } ∧
      ∀ c, (b'.mods.get c).Perm (mods.get c)) ∧
    b'.mods.melee.map Mod.id = [4, 6] ∧ ¬ b.Equippable [⟨4, none⟩, ⟨6, some 3⟩, ⟨5, none⟩] ∧
    ¬ ∃ b'', b.equipAll [⟨5, none⟩, ⟨4, none⟩, ⟨6, some 3⟩] = .ok b'' := by
  have hStart : ofOptions crowded .default swordsman = .ok _ := rfl
  have hPair (start : Build Float) (h : ofOptions crowded .default swordsman = .ok start) :
      ∃ b', (start.runAll [.clear .melee]).equipAll [⟨4, none⟩, ⟨6, some 3⟩] = .ok b' ∧
        b'.mods.melee.map Mod.id = [4, 6] := by
    cases h
    exact ⟨_, rfl, rfl⟩
  have hFails (start : Build Float) (h : ofOptions crowded .default swordsman = .ok start) :
      ¬ ∃ b', (start.runAll [.clear .melee]).equipAll [⟨4, none⟩, ⟨6, some 3⟩, ⟨5, none⟩] = .ok b' := by
    rintro ⟨b', hb'⟩
    cases h
    cases hb'
  obtain ⟨b', hb', hIds⟩ := hPair _ hStart
  obtain ⟨-, hPairOrders⟩ := equipAll_confluent hStart [.clear .melee] rfl [⟨4, none⟩, ⟨6, some 3⟩]
  obtain ⟨hIff, hOrders⟩ :=
    equipAll_confluent hStart [.clear .melee] rfl [⟨4, none⟩, ⟨6, some 3⟩, ⟨5, none⟩]
  refine ⟨_, _, b', hStart, rfl, hb', (hPairOrders _ (.swap _ _ _)).2 b' hb', hIds, ?_, ?_⟩
  · intro hEquippable
    exact hFails _ hStart (hIff.mpr hEquippable)
  · intro hAny
    exact hFails _ hStart ((hOrders _ (by decide)).1.mpr hAny)

end Build

end Loadout
