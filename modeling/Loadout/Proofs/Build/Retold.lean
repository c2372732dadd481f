import Loadout.Build.Score
import Loadout.Proofs.Build.Refill

/-!
# Builds from their own options

The options of a build spell out its levels, refinements and ranks, and what has been put into its range once
stays as it is. So a build from options comes back from its own options as it was, two things apart. The
options have one level for all skills and the weapon that belongs to the character, and the level is read off
the first skill: where there are no skills, that weapon comes back at the rank that stands for none. And an
enemy without a name is taken for a dummy, also if it is a monster whose name is empty.

* `retold`: the build that comes back;
* `loadResonance_toOptions`, `loadEnemy_toOptions`: what may be lost;
* `toOptions_chooses`: mods, aura and buffs, which come back as they were;
* `ofOptions_toOptions`: the build that comes back, and when it is the build that was there;
* `toOptions_loses_medium`: builds that are not.
-/

namespace Loadout

variable {K : Type} [Number K]

/-! ## What is in its range stays as it is -/

theorem Number.clamp_clamp {low high : K} (hLow : ¬ low < low) (hHigh : ¬ high < high)
    (hOrder : ¬ high < low) (x : K) :
    Number.clamp (Number.clamp x low high) low high = Number.clamp x low high := by
  unfold clamp
  by_cases hBelow : x < low
  · simp [hBelow, hLow, hOrder]
  · by_cases hAbove : high < x
    · simp [hBelow, hAbove, hHigh, hOrder]
    · simp [hBelow, hAbove]

theorem Skill.clampLevel_clampLevel (n : Nat) : Skill.clampLevel (Skill.clampLevel n) = Skill.clampLevel n :=
  Level.clamp_clamp (by decide) n

theorem Character.ofRecord_level (r : CharacterRecord K) (level : Option Nat) :
    Character.ofRecord r (some (Character.ofRecord r level).level) = Character.ofRecord r level := by
  simp only [Character.ofRecord, Character.atLevel, Option.getD_some,
    Level.clamp_clamp Level.least_le_greatest]

theorem Skill.ofRecord_clampLevel (r : SkillRecord K) (level : Option Nat) (weapon : Option String) :
    Skill.ofRecord r (some (Skill.clampLevel (level.getD Skill.defaultLevel))) weapon =
      Skill.ofRecord r level weapon := by
  simp only [Skill.ofRecord, Skill.atLevel, Option.getD_some, Skill.clampLevel_clampLevel]

theorem Weapon.setSkillLevel_clampLevel (w : Weapon K) (n : Nat) :
    w.setSkillLevel (Skill.clampLevel n) = w.setSkillLevel n := by
  simp only [Weapon.setSkillLevel, Weapon.make, Skill.clampLevel_clampLevel]

/-- Of two ranks the later one counts. -/
theorem Weapon.setSkillLevel_setSkillLevel (w : Weapon K) (m n : Nat) :
    (w.setSkillLevel m).setSkillLevel n = w.setSkillLevel n := by
  simp only [Weapon.setSkillLevel, Weapon.make, Level.clamp_clamp Level.least_le_greatest, Nat.min_assoc,
    Nat.min_self]

/-! ## The build that comes back -/

/-- An enemy without a name comes back as a dummy. -/
def Enemy.retold (e : Enemy K) : Enemy K :=
  if e.name.isEmpty then
    { Enemy.dummy e.level with
      resistance := e.resistance
      pool := e.pool
      staggered := e.staggered
      vulnerable := e.vulnerable }
  else e

/-- An enemy with what a choice says is different about it. -/
def Enemy.altered (e : Enemy K) (c : EnemyChoice K) : Enemy K :=
  { e with
    resistance := c.resistance.getD e.resistance
    vulnerable := c.vulnerable.or e.vulnerable
    pool := c.pool
    staggered := c.staggered }

namespace Build

/-- A build as it comes back from its options. -/
def retold (b : Build K) : Build K :=
  { b with
    resonance :=
      if b.skills.isEmpty then b.resonance.map (·.setSkillLevel Skill.defaultLevel) else b.resonance
    enemy := b.enemy.retold }

variable {d : Database K} {settings : Settings K} {o : BuildOptions K} {b b₀ : Build K}

/-- The level of the skills is in the options if there are skills. -/
theorem skillLevel_toOptions {records : List (SkillRecord K)} {level : Option Nat}
    (h : b.skills = records.map fun s => Skill.ofRecord s level none) :
    b.toOptions.skillLevel = if b.skills.isEmpty then none
      else some (Skill.clampLevel (level.getD Skill.defaultLevel)) := by
  rw [toOptions, h]
  cases records <;> rfl

/-- The weapon of the character comes back at the rank of the skills, as far as there are skills. -/
theorem loadResonance_toOptions {r : CharacterRecord K} (h : loadResonance d r o = .ok b.resonance)
    (hCharacter : b.character = .ofRecord r o.characterLevel)
    (hSkills : b.skills = r.skills.map fun s => .ofRecord s o.skillLevel none) :
    loadResonance d r b.toOptions = .ok b.retold.resonance := by
  cases hName : r.resonanceWeapon with
  | none =>
    rw [loadResonance_of_none hName] at h ⊢
    rw [retold, ← Except.ok.inj h, Option.map_none, ite_self]
  | some name =>
    obtain ⟨w, hLoad, hWeapon⟩ := (loadResonance_eq_ok_iff hName).mp h
    have hLevel : b.toOptions.characterLevel = some (Character.ofRecord r o.characterLevel).level := by
      rw [← hCharacter]
      rfl
    refine (loadResonance_eq_ok_iff hName).mpr ⟨w, ?_, ?_⟩
    · obtain ⟨record, hRecord, rfl⟩ := loadWeapon_eq_ok_iff.mp hLoad
      refine loadWeapon_eq_ok_iff.mpr ⟨record, hRecord, ?_⟩
      simp only [hLevel, Character.ofRecord, Character.atLevel, Weapon.ofRecord, Weapon.make,
        Option.getD_some, Level.clamp_clamp Level.least_le_greatest]
    · rw [skillLevel_toOptions hSkills, retold, ← hWeapon]
      split
      · rw [Option.getD_none, Option.map_some, Weapon.setSkillLevel_setSkillLevel]
      · rw [Option.getD_some, Weapon.setSkillLevel_clampLevel]

theorem loadEnemy_of_none {c : EnemyChoice K} (h : c.monster = none) :
    loadEnemy d c = .ok ((Enemy.dummy c.level).altered c) := by
  unfold loadEnemy
  rw [h]
  rfl

theorem loadEnemy_eq_ok_iff {c : EnemyChoice K} {name : String} (h : c.monster = some name) {e : Enemy K} :
    loadEnemy d c = .ok e ↔
      ∃ r, d.monster name = .ok r ∧ (Enemy.ofRecord r c.level).altered c = e := by
  unfold loadEnemy
  rw [h]
  dsimp only
  cases d.monster name with
  | error fault => exact ⟨fun h => (by cases h), fun ⟨_, h, _⟩ => (by cases h)⟩
  | ok r =>
    constructor
    · intro h
      exact ⟨r, rfl, Except.ok.inj h⟩
    · rintro ⟨r', hRecord, rfl⟩
      cases hRecord
      rfl

/-- An enemy comes back if a name tells what it is. -/
theorem loadEnemy_toOptions (hd : d.Loaded) {c : EnemyChoice K} (h : loadEnemy d c = .ok b.enemy) :
    loadEnemy d b.toOptions.enemy = .ok b.enemy.retold := by
  by_cases hEmpty : b.enemy.name.isEmpty = true
  · have hMonster : b.toOptions.enemy.monster = none := if_pos hEmpty
    rw [loadEnemy_of_none hMonster, Enemy.retold, if_pos hEmpty]
    simp only [Enemy.altered, toOptions, Enemy.dummy, Option.getD_some, Option.or_none]
  · rw [Enemy.retold, if_neg hEmpty]
    cases hChoice : c.monster with
    | none =>
      rw [loadEnemy_of_none hChoice] at h
      rw [← Except.ok.inj h] at hEmpty
      exact absurd rfl hEmpty
    | some name =>
      obtain ⟨r, hRecord, hEnemy⟩ := (loadEnemy_eq_ok_iff hChoice).mp h
      have hName : b.enemy.name = name := by
        rw [← hEnemy]
        exact hd.monster_name hRecord
      have hMonster : b.toOptions.enemy.monster = some name := (if_neg hEmpty).trans (congrArg some hName)
      refine (loadEnemy_eq_ok_iff hMonster).mpr ⟨r, hRecord, ?_⟩
      rw [toOptions, ← hEnemy]
      simp only [Enemy.altered, Enemy.ofRecord, Option.getD_some, Option.or_assoc, Option.or_self]

/-- An enemy that is not a monster without a name is what comes back. -/
theorem Enemy.retold_eq (hd : d.Loaded) {c : EnemyChoice K} {e : Enemy K} (h : loadEnemy d c = .ok e)
    (hName : c.monster ≠ some "") : e.retold = e := by
  rw [Enemy.retold]
  split
  · next hEmpty =>
    cases hChoice : c.monster with
    | none =>
      rw [loadEnemy_of_none hChoice] at h
      rw [← Except.ok.inj h]
      rfl
    | some name =>
      obtain ⟨r, hRecord, rfl⟩ := (loadEnemy_eq_ok_iff hChoice).mp h
      rw [String.isEmpty_iff] at hEmpty
      have hRecordName : r.name = name := hd.monster_name hRecord
      exact absurd (hChoice.trans (congrArg some (hRecordName.symm.trans hEmpty))) hName
  · rfl

/-- The weapon of a character is what comes back if its rank can be read off the skills, or is the one that
stands for none. -/
theorem resonance_retold (h : loadResonance d b.character.record o = .ok b.resonance)
    (hSkills : b.skills = [] → ∀ w ∈ b.resonance, w.skillLevel = Skill.defaultLevel) :
    b.retold.resonance = b.resonance := by
  rw [retold]
  split
  · next hEmpty =>
    cases hName : b.character.record.resonanceWeapon with
    | none =>
      rw [loadResonance_of_none hName] at h
      rw [← Except.ok.inj h, Option.map_none]
    | some name =>
      obtain ⟨w, hLoad, hWeapon⟩ := (loadResonance_eq_ok_iff hName).mp h
      have hRank : Skill.clampLevel (o.skillLevel.getD Skill.defaultLevel) = Skill.defaultLevel :=
        hSkills (List.isEmpty_iff.mp hEmpty) _ hWeapon.symm
      rw [← hWeapon, Option.map_some, Weapon.setSkillLevel_setSkillLevel,
        ← w.setSkillLevel_clampLevel (o.skillLevel.getD Skill.defaultLevel), hRank]
  · rfl

theorem record_resonance_retold (b : Build K) :
    b.retold.resonance.map Weapon.record = b.resonance.map Weapon.record := by
  rw [retold]
  split
  · rw [Option.map_map]
    rfl
  · rfl

/-! ## Mods, aura and buffs -/

/-- The options of a build choose its mods, its aura and its buffs. -/
theorem toOptions_chooses (hd : d.Loaded) (h : b.Traced d) : b.toOptions.Chooses d b where
  mods c := by
    simp only [toOptions, PerCategory.get_map, List.forall₂_map_left_iff, List.forall₂_same]
    intro m hm
    obtain ⟨choice, hMakes⟩ := h.mods c m hm
    exact hMakes.again hd.indexed
  aura := by
    have hAura := h.aura
    cases hResult : b.aura with
    | none =>
      rw [toOptions, hResult]
      exact .none
    | some m =>
      obtain ⟨choice, hMakes⟩ := hAura m hResult
      rw [toOptions, hResult]
      exact .some (hMakes.again hd.indexed)
  buffs := by
    simp only [toOptions, List.forall₂_map_left_iff, List.forall₂_same]
    intro f hf
    obtain ⟨-, choice, hMakes⟩ := h.buffs f hf
    exact hMakes.again hd
  dynamicBuffs := by
    simp only [toOptions, List.forall₂_map_left_iff, List.forall₂_same]
    intro f hf
    obtain ⟨-, choice, hMakes⟩ := h.dynamicBuffs f hf
    exact hMakes.again hd
  isDynamic_buffs f hf := (h.buffs f hf).1
  isDynamic_dynamicBuffs f hf := (h.dynamicBuffs f hf).1

/-! ## Whole builds -/

theorem SameFrame.retold (h : b₀.SameFrame b) : b₀.retold.SameFrame b.retold := by
  rw [SameFrame] at h
  rw [h]
  rfl

theorem SameFrame.bare_toOptions (h : b₀.SameFrame b) :
    bare d settings b.toOptions = bare d settings b₀.toOptions := by
  rw [SameFrame] at h
  rw [h]
  rfl

/-- The skills come back at their level, if there are any. -/
theorem skills_toOptions {records : List (SkillRecord K)} {level : Option Nat}
    (h : b.skills = records.map fun s => Skill.ofRecord s level none) :
    (records.map fun s => Skill.ofRecord s b.toOptions.skillLevel none) = b.skills := by
  rw [skillLevel_toOptions h, h]
  cases records with
  | nil => rfl
  | cons first rest =>
    simp only [List.map_cons, List.isEmpty_cons, Bool.false_eq_true, if_false, Skill.ofRecord_clampLevel]

/-- What is in place before the mods, the aura and the buffs comes back. -/
theorem bare_toOptions (hd : d.Loaded)
    (hClamp : ∀ x : K, Number.clamp (Number.clamp x 0.0 1.0) 0.0 1.0 = Number.clamp x 0.0 1.0)
    (h : bare d settings o = .ok b) : bare d settings b.toOptions = .ok b.retold := by
  obtain ⟨record, melee, ranged, resonance, enemy, hCharacter, hMelee, hRanged, hResonance, hEnemy, hTimeline,
    hb⟩ := bare_eq_ok_iff.mp h
  have hRecord : d.character record.name = .ok record := (hd.character_name hCharacter).symm ▸ hCharacter
  have hSkills : b.skills = record.skills.map fun s => .ofRecord s o.skillLevel none := hb ▸ rfl
  have hSkillsAgain := skills_toOptions hSkills
  have hLevel : Character.ofRecord record b.toOptions.characterLevel = b.character := by
    rw [← hb]
    exact Character.ofRecord_level record o.characterLevel
  have hHealth : Number.clamp b.toOptions.health 0.0 1.0 = b.health := by
    rw [← hb]
    exact hClamp o.health
  subst hb
  refine bare_eq_ok_iff.mpr ⟨record, melee, ranged, _, _, hRecord, loadWeapon_again hd.named hMelee,
    loadWeapon_again hd.named hRanged, loadResonance_toOptions hResonance rfl hSkills,
    loadEnemy_toOptions hd hEnemy, hTimeline, ?_⟩
  rw [hLevel, hSkillsAgain, hHealth]
  rfl

theorem loads_of_bare (h : bare d settings o = .ok b) :
    loadResonance d b.character.record o = .ok b.resonance ∧ loadEnemy d o.enemy = .ok b.enemy := by
  obtain ⟨record, melee, ranged, resonance, enemy, -, -, -, hResonance, hEnemy, -, rfl⟩ :=
    bare_eq_ok_iff.mp h
  exact ⟨hResonance, hEnemy⟩

/-- What is in place before the mods, the aura and the buffs comes back as it was, if neither a rank nor a
monster without a name is lost. -/
theorem retold_eq_of_bare (hd : d.Loaded) (h : bare d settings o = .ok b)
    (hSkills : b.skills = [] → ∀ w ∈ b.resonance, w.skillLevel = Skill.defaultLevel)
    (hMonster : o.enemy.monster ≠ some "") : b.retold = b := by
  obtain ⟨hResonance, hEnemy⟩ := loads_of_bare h
  calc b.retold = { b with resonance := b.retold.resonance, enemy := b.enemy.retold } := rfl
    _ = b := by rw [resonance_retold hResonance hSkills, Enemy.retold_eq hd hEnemy hMonster]

/-- A build comes back from its options, an enemy without a name and the rank of a weapon apart that belongs
to a character without skills. -/
theorem ofOptions_toOptions {d : Database Float} {settings : Settings Float} {o : BuildOptions Float}
    {b : Build Float} (hd : d.Loaded) (h : ofOptions d settings o = .ok b) :
    ofOptions d settings b.toOptions = .ok b.retold ∧
      ((b.skills = [] → ∀ w ∈ b.resonance, w.skillLevel = Skill.defaultLevel) →
        o.enemy.monster ≠ some "" → b.retold = b) := by
  obtain ⟨b₀, hBare, hFrame⟩ := exists_bare_of_ofOptions h
  constructor
  · have hClamp : ∀ x : Float, Number.clamp (Number.clamp x 0.0 1.0) 0.0 1.0 = Number.clamp x 0.0 1.0 :=
      Number.clamp_clamp (by decide) (by decide) (by decide)
    have hBareAgain : bare d settings b.toOptions = .ok b₀.retold :=
      hFrame.bare_toOptions.trans (bare_toOptions hd hClamp hBare)
    have hChooses := toOptions_chooses hd (traced_runAll hd h [])
    have hWell := ensures_ofOptions d settings o b h
    refine ofOptions_eq_ok hBareAgain hFrame.retold { hChooses with } ?_
    exact hWell.of_records (fits_congr rfl rfl rfl (record_resonance_retold b)) fun _ => rfl
  · intro hSkills hMonster
    have hSkillsEq : b.skills = b₀.skills := by rw [hFrame]
    have hResonanceEq : b.resonance = b₀.resonance := by rw [hFrame]
    rw [hSkillsEq, hResonanceEq] at hSkills
    rw [hFrame.retold, retold_eq_of_bare hd hBare hSkills hMonster]
    exact hFrame.symm

/-! ## A medium and an adept -/

/-- A weapon whose multiplier depends on its rank. -/
def spiritBlade : WeaponRecord Float :=
  { blade 3 "灵刃" "太刀" with kind := .resonanceMelee, baseMultiplier := some "甲" }

/-- A character who has a weapon and no skills. -/
def medium : CharacterRecord Float :=
  { bearer with name := "灵媒", resonanceWeapon := some "灵刃" }

def adept : CharacterRecord Float :=
  { medium with id := 4, name := "术士", skills := [⟨"引灵", "", []⟩] }

def nameless : MonsterRecord Float where
  id := 6
  name := ""
  defense := 300.0
  health := 5000.0
  shield := 0.0
  resistance := 0.0
  vulnerable := none

def sanctum : Database Float where
  characters := Database.index CharacterRecord.name [medium, adept]
  charactersById := Database.index CharacterRecord.id [medium, adept]
  weapons := Database.index WeaponRecord.name [blade 2 "刀" "太刀", spiritBlade]
  weaponsById := Database.index WeaponRecord.id [blade 2 "刀" "太刀", spiritBlade]
  mods := Database.index ModRecord.id [exclusiveMod 5 "坚韧" none]
  buffs := Database.index BuffRecord.name []
  monsters := Database.index MonsterRecord.name [nameless]
  effects := .empty
  multipliers := .ofList [("同律近战", .ofList [("甲", ⟨1.0, 1.9⟩)])]

theorem loaded_sanctum : sanctum.Loaded where
  characters := ⟨_, rfl, rfl⟩
  weapons := ⟨_, rfl, rfl⟩
  mods := ⟨_, rfl⟩
  buffs := ⟨_, rfl⟩
  monsters := ⟨_, rfl⟩

/-- A character with two swords and one mod, with skills at the fifth level. -/
def atFifthLevel (name : String) : BuildOptions Float :=
  { BuildOptions.default with
    character := name
    melee := "刀"
    ranged := "刀"
    skillLevel := some 5
    mods := ⟨[], [⟨5, some 3⟩], [], []⟩ }

/-- The adept comes back with the weapon at its rank. -/
theorem ofOptions_toOptions_adept : ∃ b, ofOptions sanctum .default (atFifthLevel "术士") = .ok b ∧
    ofOptions sanctum .default b.toOptions = .ok b ∧ b.resonance.map Weapon.skillLevel = some 5 ∧
    b.mods.melee.map Mod.rank = [3] := by
  have h : ofOptions sanctum .default (atFifthLevel "术士") = .ok _ := rfl
  obtain ⟨hAgain, hSame⟩ := ofOptions_toOptions loaded_sanctum h
  rw [hSame (fun hSkills => by cases hSkills) (by decide)] at hAgain
  exact ⟨_, h, hAgain, rfl, rfl⟩

/-- The medium comes back with the weapon at another rank and with another score, and who is up against the
nameless comes back against a dummy. -/
theorem toOptions_loses_medium :
    (∃ b b', ofOptions sanctum .default { atFifthLevel "灵媒" with action := "灵刃" } = .ok b ∧
      ofOptions sanctum .default b.toOptions = .ok b' ∧ b.resonance.map Weapon.skillLevel = some 5 ∧
      b'.resonance.map Weapon.skillLevel = some 10 ∧ (b.score == b'.score) = false) ∧
    ∃ b b', ofOptions sanctum .default { atFifthLevel "术士" with
        enemy := { EnemyChoice.default with monster := some "" } } = .ok b ∧
      ofOptions sanctum .default b.toOptions = .ok b' ∧
      (b.enemy.defense == 300.0) = true ∧ (b'.enemy.defense == 0.0) = true :=
  ⟨⟨_, _, rfl, rfl, rfl, rfl, by decide +kernel⟩, _, _, rfl, rfl, rfl, rfl⟩

end Build

end Loadout
