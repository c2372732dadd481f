import Loadout.Proofs.Build.Ranges
import Loadout.Proofs.Database
import Loadout.Proofs.Steps

/-!
# What a build is made of

Everything that a build holds has been made of records of its database by a choice that options can express:
a mod by an id and a rank, a buff by a name and a level, a weapon by a name, a refinement and a level
(`Build.Traced`). What has been made of a record at some parameter can be made of it again, at the parameter
that it has come to be at or at another one.

* `ModChoice.Makes.at`, `BuffChoice.Makes.again`, `loadWeapon_again`: made again;
* `Traced.apply`: no change brings anything in that has been made otherwise;
* `traced_runAll`: what is in a build from options is so made, whatever has been done to it since.
-/

namespace Loadout

variable {K : Type} [Number K]

/-! ## Mods -/

/-- A choice gives a mod on a database. -/
structure ModChoice.Makes (choice : ModChoice) (d : Database K) (m : Mod K) : Prop where
  record : d.mod choice.id = .ok m.record
  ofRecord : Mod.ofRecord m.record (d.effect? m.record.name) choice.rank = .ok m

theorem Mod.ofRecord_eq_ok_iff {r : ModRecord K} {effect : Option (BuffRecord K)} {rank : Option Nat}
    {m : Mod K} : Mod.ofRecord r effect rank = .ok m ↔
      ∃ conditions, Mod.conditionsOf r = .ok conditions ∧
        Mod.make r effect conditions (rank.getD r.quality.maxRank) = m := bind_pure_eq_ok_iff

/-- A mod is at its rank. -/
theorem Mod.setRank_rank {r : ModRecord K} {effect : Option (BuffRecord K)} {rank : Option Nat}
    {m : Mod K} (h : Mod.ofRecord r effect rank = .ok m) : m.setRank m.rank = m := by
  obtain ⟨conditions, -, rfl⟩ := Mod.ofRecord_eq_ok_iff.mp h
  simp only [Mod.setRank, Mod.make, Nat.min_assoc, Nat.min_self]

/-- What makes a mod makes it at any rank. -/
theorem ModChoice.Makes.at {choice : ModChoice} {d : Database K} {m : Mod K} (h : choice.Makes d m)
    (rank : Option Nat) :
    (⟨choice.id, rank⟩ : ModChoice).Makes d (m.setRank (rank.getD m.record.quality.maxRank)) := by
  refine ⟨h.record, ?_⟩
  obtain ⟨conditions, hConditions, hMake⟩ := Mod.ofRecord_eq_ok_iff.mp h.ofRecord
  refine Mod.ofRecord_eq_ok_iff.mpr ⟨conditions, hConditions, ?_⟩
  rw [← hMake]
  rfl

theorem ModChoice.Makes.id_eq {choice : ModChoice} {d : Database K} {m : Mod K} (h : choice.Makes d m)
    (hd : d.Indexed) : m.id = choice.id := hd choice.id m.record h.record

/-- A mod can be made again at its rank. -/
theorem ModChoice.Makes.again {choice : ModChoice} {d : Database K} {m : Mod K} (h : choice.Makes d m)
    (hd : d.Indexed) : (⟨m.id, some m.rank⟩ : ModChoice).Makes d m := by
  have hMakes := h.at (some m.rank)
  rwa [Option.getD_some, Mod.setRank_rank h.ofRecord, ← h.id_eq hd] at hMakes

/-! ## Buffs -/

/-- A choice gives a buff on a database. -/
structure BuffChoice.Makes (choice : BuffChoice) (d : Database K) (f : Buff K) : Prop where
  record : d.buff choice.name = .ok f.record
  ofRecord : Buff.ofRecord f.record choice.level = .ok f

theorem Buff.ofRecord_eq_ok_iff {r : BuffRecord K} {level : Option Nat} {f : Buff K} :
    Buff.ofRecord r level = .ok f ↔ ∃ script, Buff.scriptOf r = .ok script ∧
      Buff.make r script (level.getD r.usualLevel) = f := bind_pure_eq_ok_iff

/-- A buff is at its level. -/
theorem Buff.ofRecord_level {r : BuffRecord K} {level : Option Nat} {f : Buff K}
    (h : Buff.ofRecord r level = .ok f) : Buff.ofRecord r (some f.level) = .ok f := by
  obtain ⟨script, hScript, rfl⟩ := Buff.ofRecord_eq_ok_iff.mp h
  refine Buff.ofRecord_eq_ok_iff.mpr ⟨script, hScript, ?_⟩
  have hRange : r.leastLevel ≤ r.greatestLevel := Nat.le_max_right _ _
  simp only [Buff.make, Option.getD_some, Level.clamp_clamp hRange]

/-- A buff can be made again at its level. -/
theorem BuffChoice.Makes.again {choice : BuffChoice} {d : Database K} {f : Buff K}
    (h : choice.Makes d f) (hd : d.Loaded) : (⟨f.name, some f.level⟩ : BuffChoice).Makes d f := by
  have hName : f.name = choice.name := hd.buff_name h.record
  exact ⟨hName ▸ h.record, Buff.ofRecord_level h.ofRecord⟩

namespace Build

/-! ## Weapons -/

theorem loadWeapon_eq_ok_iff {d : Database K} {name : String} {refine level : Option Nat}
    {w : Weapon K} : loadWeapon d name refine level = .ok w ↔ ∃ record, d.weapon name = .ok record ∧
      Weapon.ofRecord record (d.effect? name)
        (record.baseMultiplier.bind fun row => d.multiplier? record.kind.name row) refine level = w :=
  bind_pure_eq_ok_iff

/-- A weapon that has been loaded can be loaded at any refinement and level. -/
theorem exists_loadWeapon {d : Database K} {name : String} {refine level : Option Nat} {w : Weapon K}
    (h : loadWeapon d name refine level = .ok w) (refine' level' : Option Nat) :
    ∃ v, loadWeapon d name refine' level' = .ok v ∧ v.record = w.record := by
  obtain ⟨record, hRecord, rfl⟩ := loadWeapon_eq_ok_iff.mp h
  exact ⟨_, loadWeapon_eq_ok_iff.mpr ⟨record, hRecord, rfl⟩, rfl⟩

theorem name_of_loadWeapon {d : Database K} (hd : d.Named) {name : String} {refine level : Option Nat}
    {w : Weapon K} (h : loadWeapon d name refine level = .ok w) : w.name = name :=
  hd name w.record (ensures_loadWeapon d name refine level w h).1

/-- A weapon can be loaded again at its refinement and its level. -/
theorem loadWeapon_again {d : Database K} (hd : d.Named) {name : String} {refine level : Option Nat}
    {w : Weapon K} (h : loadWeapon d name refine level = .ok w) :
    loadWeapon d w.name (some w.refine) (some w.level) = .ok w := by
  obtain ⟨record, hRecord, rfl⟩ := loadWeapon_eq_ok_iff.mp h
  have hName : record.name = name := hd name record hRecord
  refine loadWeapon_eq_ok_iff.mpr ⟨record, hName ▸ hRecord, ?_⟩
  simp only [Weapon.ofRecord, Weapon.make, Weapon.name, Option.getD_some,
    Level.clamp_clamp Level.least_le_greatest, Nat.min_assoc, Nat.min_self, hName]

theorem loadResonance_of_none {d : Database K} {r : CharacterRecord K} (h : r.resonanceWeapon = none)
    (o : BuildOptions K) : loadResonance d r o = .ok none := by
  unfold loadResonance
  rw [h]

/-- A weapon is loaded at the rank that stands for none. -/
theorem setSkillLevel_default {d : Database K} {name : String} {refine level : Option Nat} {w : Weapon K}
    (h : loadWeapon d name refine level = .ok w) : w.setSkillLevel Skill.defaultLevel = w := by
  obtain ⟨record, -, rfl⟩ := loadWeapon_eq_ok_iff.mp h
  simp only [Weapon.ofRecord, Weapon.setSkillLevel, Weapon.make,
    Level.clamp_clamp Level.least_le_greatest, Nat.min_assoc, Nat.min_self]

/-- The weapon of a character is loaded at the level of the character and at the rank of the skills. -/
theorem loadResonance_eq_ok_iff {d : Database K} {r : CharacterRecord K} {name : String}
    (h : r.resonanceWeapon = some name) {o : BuildOptions K} {resonance : Option (Weapon K)} :
    loadResonance d r o = .ok resonance ↔ ∃ w, loadWeapon d name none o.characterLevel = .ok w ∧
      some (w.setSkillLevel (o.skillLevel.getD Skill.defaultLevel)) = resonance := by
  unfold loadResonance
  rw [h]
  dsimp only
  rw [bind_eq_ok_iff]
  refine exists_congr fun w => and_congr_right fun hLoad => ?_
  cases o.skillLevel with
  | none =>
    rw [Option.getD_none, setSkillLevel_default hLoad]
    exact iff_of_eq (Except.ok.injEq _ _)
  | some level => exact iff_of_eq (Except.ok.injEq _ _)

/-- The weapon of a character that has been loaded can be loaded with any options. -/
theorem exists_loadResonance {d : Database K} {r : CharacterRecord K} {o : BuildOptions K}
    {resonance : Option (Weapon K)} (h : loadResonance d r o = .ok resonance) (o' : BuildOptions K) :
    ∃ resonance', loadResonance d r o' = .ok resonance' ∧
      resonance'.map Weapon.record = resonance.map Weapon.record := by
  cases hName : r.resonanceWeapon with
  | none =>
    rw [loadResonance_of_none hName] at h
    cases h
    exact ⟨none, loadResonance_of_none hName o', rfl⟩
  | some name =>
    obtain ⟨w, hLoad, rfl⟩ := (loadResonance_eq_ok_iff hName).mp h
    obtain ⟨v, hLoad', hRecord⟩ := exists_loadWeapon hLoad none o'.characterLevel
    exact ⟨_, (loadResonance_eq_ok_iff hName).mpr ⟨v, hLoad', rfl⟩, congrArg some hRecord⟩

/-! ## Builds -/

/-- What a build holds has been made of the records of a database. -/
structure Traced (b : Build K) (d : Database K) : Prop where
  database_eq : b.database = d
  character : d.character b.character.record.name = .ok b.character.record
  melee : ∃ name refine level, loadWeapon d name refine level = .ok b.melee
  ranged : ∃ name refine level, loadWeapon d name refine level = .ok b.ranged
  resonance : ∃ o, loadResonance d b.character.record o = .ok b.resonance
  mods : ∀ c, ∀ m ∈ b.mods.get c, ∃ choice : ModChoice, choice.Makes d m
  aura : ∀ m ∈ b.aura, ∃ choice : ModChoice, choice.Makes d m
  buffs : ∀ f ∈ b.buffs, f.isDynamic = false ∧ ∃ choice : BuffChoice, choice.Makes d f
  dynamicBuffs : ∀ f ∈ b.dynamicBuffs, f.isDynamic = true ∧ ∃ choice : BuffChoice, choice.Makes d f

variable {b b' : Build K} {d : Database K}

/-- Mods may be taken out. -/
theorem Traced.of_subset (h : b.Traced d) {mods : PerCategory (List (Mod K))}
    (hMods : ∀ c, mods.get c ⊆ b.mods.get c) : ({ b with mods := mods } : Build K).Traced d :=
  { h with mods := fun c m hm => h.mods c m (hMods c hm) }

theorem Traced.dropUnfit (h : b.Traced d) : b.dropUnfit.1.Traced d :=
  h.of_subset fun c => (get_dropUnfit_sublist b c).subset

theorem Traced.equip (h : b.Traced d) (id : Nat) (rank : Option Nat) :
    Ensures (b.equip id rank) (Traced · d) := by
  intro b' hEquip
  obtain ⟨r, m, hRecord, hMod, -, rfl⟩ := ensures_equip b id rank b' hEquip
  rw [h.database_eq] at hRecord hMod
  obtain rfl : m.record = r := ensures_ofRecord _ _ _ m hMod
  refine { h with mods := fun c => ?_ }
  change ∀ n ∈ (b.mods.set m.record.category _).get c, _
  by_cases hc : m.record.category = c
  · subst hc
    rw [PerCategory.get_set_self]
    exact List.forall_mem_append.mpr ⟨h.mods _, List.forall_mem_singleton.mpr ⟨⟨id, rank⟩, hRecord, hMod⟩⟩
  · rw [PerCategory.get_set_of_ne _ hc]
    exact h.mods c

theorem Traced.setWeapon (h : b.Traced d) (slot : WeaponSlot) (name : String)
    (refine level : Option Nat) :
    Ensures (b.setWeapon slot name refine level) fun changed => changed.1.Traced d := by
  intro changed hSet
  obtain ⟨w, hLoad, ⟨-, rfl⟩ | ⟨-, rfl⟩⟩ := ensures_setWeapon b slot name refine level changed hSet
  · rw [h.database_eq] at hLoad
    have hMelee : ({ b with melee := w } : Build K).Traced d :=
      { h with melee := ⟨name, refine, level, hLoad⟩ }
    exact hMelee.dropUnfit
  · rw [h.database_eq] at hLoad
    have hRanged : ({ b with ranged := w } : Build K).Traced d :=
      { h with ranged := ⟨name, refine, level, hLoad⟩ }
    exact hRanged.dropUnfit

theorem Traced.setAura (h : b.Traced d) (choice : Option ModChoice) :
    Ensures (b.setAura choice) (Traced · d) := by
  cases choice with
  | none => exact ensures_ok { h with aura := fun m hm => by cases hm }
  | some choice =>
    refine (ensures_eq _).bind fun r hRecord => (ensures_eq _).bind fun m hMod => ensures_ok ?_
    rw [h.database_eq] at hRecord hMod
    obtain rfl : m.record = r := ensures_ofRecord _ _ _ m hMod
    refine { h with aura := fun n hn => ?_ }
    cases hn
    exact ⟨choice, hRecord, hMod⟩

/-- A buff that is added is known, and it stands behind the others of its kind. -/
theorem ensures_addBuff (b : Build K) (name : String) (level : Option Nat) :
    Ensures (b.addBuff name level) fun b' => ∃ f, (⟨name, level⟩ : BuffChoice).Makes b.database f ∧
      (f.isDynamic = false ∧ b' = { b with buffs := b.buffs ++ [f] } ∨
        f.isDynamic = true ∧ b' = { b with dynamicBuffs := b.dynamicBuffs ++ [f] }) := by
  refine (ensures_eq _).bind fun r hRecord => (ensures_eq _).bind fun f hBuff => ?_
  obtain ⟨script, -, rfl⟩ := Buff.ofRecord_eq_ok_iff.mp hBuff
  split
  · next hDynamic => exact ensures_ok ⟨_, ⟨hRecord, hBuff⟩, .inr ⟨hDynamic, rfl⟩⟩
  · next hStatic => exact ensures_ok ⟨_, ⟨hRecord, hBuff⟩, .inl ⟨(Bool.not_eq_true _).mp hStatic, rfl⟩⟩

theorem Traced.addBuff (h : b.Traced d) (name : String) (level : Option Nat) :
    Ensures (b.addBuff name level) (Traced · d) := by
  intro b' hAdd
  obtain ⟨f, hMakes, ⟨hStatic, rfl⟩ | ⟨hDynamic, rfl⟩⟩ := ensures_addBuff b name level b' hAdd
  · rw [h.database_eq] at hMakes
    exact { h with
      buffs := List.forall_mem_append.mpr
        ⟨h.buffs, List.forall_mem_singleton.mpr ⟨hStatic, _, hMakes⟩⟩ }
  · rw [h.database_eq] at hMakes
    exact { h with
      dynamicBuffs := List.forall_mem_append.mpr
        ⟨h.dynamicBuffs, List.forall_mem_singleton.mpr ⟨hDynamic, _, hMakes⟩⟩ }

omit [Number K] in
theorem mem_of_mem_removeBuff {name : String} {f : Buff K} {fs : List (Buff K)}
    (h : f ∈ fs.filter fun f => f.record.name != name) : f ∈ fs := (List.mem_filter.mp h).1

/-- Whatever the change, nothing comes in that has been made otherwise. -/
theorem Traced.apply (h : b.Traced d) (c : Change K) : Ensures (c.apply b) (Traced · d) := by
  cases c with
  | equip id rank => exact h.equip id rank
  | unequip id =>
    refine ensures_ok ?_
    cases hTaken : b.unequip? id with
    | none => exact h
    | some b' =>
      obtain ⟨c, rest, hRest, rfl⟩ := unequip?_eq_some hTaken
      exact h.of_subset fun c' => (get_set_sublist (sublist_of_without? hRest) c').subset
  | clear c => exact ensures_ok (h.of_subset fun c' => (get_set_sublist (List.nil_sublist _) c').subset)
  | dropUnfit => exact ensures_ok h.dropUnfit
  | setWeapon slot name refine level => exact (h.setWeapon slot name refine level).map
  | setAura choice => exact h.setAura choice
  | addBuff name level => exact h.addBuff name level
  | removeBuff name =>
    exact ensures_ok { h with
      buffs := fun f hf => h.buffs f (mem_of_mem_removeBuff hf)
      dynamicBuffs := fun f hf => h.dynamicBuffs f (mem_of_mem_removeBuff hf) }
  | setCharacterLevel | setEnemy | setHealth | setActionName | setTarget | setTimeline =>
    exact ensures_ok { h with }

/-! ## Builds from options -/

theorem ensures_bare_traced (hd : d.Loaded) (settings : Settings K) (o : BuildOptions K) :
    Ensures (bare d settings o) (Traced · d) := by
  refine (ensures_eq _).bind fun record hCharacter => ?_
  refine (ensures_eq _).bind fun melee hMelee => ?_
  refine (ensures_eq _).bind fun ranged hRanged => ?_
  refine (ensures_eq _).bind fun resonance hResonance => ?_
  refine (ensures_anything _).bind fun enemy _ => ?_
  refine (ensures_anything _).bind fun _ _ => ensures_ok ?_
  have hNone (c : ModCategory) : (PerCategory.same []).get c = ([] : List (Mod K)) := PerCategory.get_same _ c
  exact {
    database_eq := rfl
    character := (hd.character_name hCharacter).symm ▸ hCharacter
    melee := ⟨_, _, _, hMelee⟩
    ranged := ⟨_, _, _, hRanged⟩
    resonance := ⟨o, hResonance⟩
    mods := fun c m hm => by
      rw [hNone c] at hm
      cases hm
    aura := fun m hm => by cases hm
    buffs := fun f hf => by cases hf
    dynamicBuffs := fun f hf => by cases hf }

/-- What is in a build from options has been made of the records of its database, whatever has been done to
the build since. -/
theorem traced_runAll (hd : d.Loaded) {settings : Settings K} {o : BuildOptions K}
    (h : ofOptions d settings o = .ok b) (changes : List (Change K)) : (b.runAll changes).Traced d := by
  have hApply (b : Build K) (c : Change K) (hb : b.Traced d) : Ensures (c.apply b) (Traced · d) :=
    hb.apply c
  have hStart := ensures_ofOptions_of_apply hApply (ensures_bare_traced hd settings o)
  exact runAll_of_apply hApply (hStart b h) changes

end Build

end Loadout
