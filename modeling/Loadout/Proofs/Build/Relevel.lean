import Loadout.Build.Score
import Loadout.Proofs.Build.Retold
import Loadout.Proofs.Equipment.Current

/-!
# Builds at another level of the character

A build that is put together at a level has two things at that level: the character, and the weapon that belongs
to the character. To set the level afterwards sets that of the character alone. So the weapon stays behind, with
the attack of the level that it was loaded at; nothing else that follows from a build is different.

* `ofOptions_relevel`: putting a build together at a level is setting both levels afterwards;
* `sources_relevel`: what the level of the weapon does not matter to;
* `ofOptions_characterLevel`: what setting the level of the character comes to;
* `setCharacterLevel_loses_medium`: a build with a weapon that stays behind.
-/

namespace Loadout

section

variable {ε α β : Type} {f : β → α → Except ε β} {g : β → β}

/-- What commutes with each step of a row commutes with the row. -/
theorem foldlM_hom (hf : ∀ b a, f (g b) a = g <$> f b a) (b : β) (as : List α) :
    as.foldlM f (g b) = g <$> as.foldlM f b := by
  induction as generalizing b with
  | nil => rfl
  | cons a rest ih =>
    rw [List.foldlM_cons, List.foldlM_cons, hf, bind_map_left, map_bind]
    exact bind_congr ih

end

variable {K : Type} [Number K]

/-! ## A weapon at another level -/

namespace Weapon

section

variable {r : WeaponRecord K} {effect : Option (BuffRecord K)} {table : Option (BaseMultiplier K)}

theorem setLevel_make (level refine skillLevel n : Nat) :
    (make r effect table level refine skillLevel).setLevel n = make r effect table n refine skillLevel := by
  simp only [setLevel, make, Skill.clampLevel_clampLevel, Nat.min_assoc, Nat.min_self]

theorem setSkillLevel_setLevel (w : Weapon K) (m n : Nat) :
    (w.setLevel m).setSkillLevel n = (w.setSkillLevel n).setLevel m := by
  simp only [setSkillLevel, setLevel, make, Level.clamp_clamp Level.least_le_greatest, Nat.min_assoc,
    Nat.min_self, Skill.clampLevel_clampLevel]

end

/-- The numbers of a weapon are those of its parameters. -/
def Made (w : Weapon K) : Prop := make w.record w.effect w.table w.level w.refine w.skillLevel = w

theorem made_make {r : WeaponRecord K} {effect : Option (BuffRecord K)} {table : Option (BaseMultiplier K)}
    (level refine skillLevel : Nat) : (make r effect table level refine skillLevel).Made :=
  make_parameters level refine skillLevel

variable {w : Weapon K}

/-- The level of a weapon decides about its attack alone. -/
theorem Made.base_setLevel (h : w.Made) (n : Nat) :
    (w.setLevel n).base = { w.base with attack := (w.setLevel n).base.attack } := by
  rw [← h, setLevel_make]
  rfl

theorem Made.setLevel_eq (h : w.Made) {n : Nat} (hLevel : w.level = Level.clamp Level.least Level.greatest n) :
    w.setLevel n = w := by
  rw [← h, setLevel_make, ← make_clamp n, ← hLevel]

end Weapon

/-! ## Sources of bonuses -/

/-- Of the weapons their bonuses count. -/
theorem Equipment.toSources_congr {e : Equipment K} {weapons : List (Weapon K)}
    (h : weapons.map (·.base.bonuses) = e.weapons.map (·.base.bonuses)) :
    ({ e with weapons := weapons } : Equipment K).toSources = e.toSources := by
  have hPlain : ({ e with weapons := weapons } : Equipment K).plainSources = e.plainSources := by
    unfold plainSources
    rw [h]
  have hFactor (m : Mod K) : ({ e with weapons := weapons } : Equipment K).modFactor m = e.modFactor m := by
    unfold modFactor modAttribute
    rw [hPlain]
  have hSource : ({ e with weapons := weapons } : Equipment K).modSource = e.modSource := by
    funext m
    rw [modSource, hFactor, modSource]
  have hConditional : ({ e with weapons := weapons } : Equipment K).modConditional = e.modConditional := by
    funext m
    rw [modConditional, hFactor, modConditional]
  unfold toSources
  rw [hPlain, hSource, hConditional]
  rfl

namespace Build

variable {b b' : Build K} {d : Database K} {settings : Settings K} {o : BuildOptions K}

/-- A build with the character, and the weapon that belongs to the character, at another level. -/
def relevel (b : Build K) (n : Nat) : Build K :=
  { b.setCharacterLevel n with resonance := b.resonance.map (·.setLevel n) }

@[simp]
theorem mods_relevel (b : Build K) (n : Nat) : (b.relevel n).mods = b.mods := rfl

@[simp]
theorem database_relevel (b : Build K) (n : Nat) : (b.relevel n).database = b.database := rfl

@[simp]
theorem exclusion_relevel (b : Build K) (n : Nat) : (b.relevel n).exclusion = b.exclusion := rfl

@[simp]
theorem record_relevel (b : Build K) (n : Nat) : (b.relevel n).character.record = b.character.record := rfl

@[simp]
theorem fits_relevel (b : Build K) (n : Nat) : (b.relevel n).fits = b.fits := by
  refine fits_congr rfl rfl rfl ?_
  rw [relevel, Option.map_map]
  rfl

/-! ## The steps that put a build together -/

theorem equip_relevel (b : Build K) (n id : Nat) (rank : Option Nat) :
    (b.relevel n).equip id rank = (·.relevel n) <$> b.equip id rank := by
  unfold equip
  simp only [database_relevel, mods_relevel, exclusion_relevel, fits_relevel, record_relevel, map_bind]
  refine bind_congr fun record => ?_
  split
  · rfl
  · split
    · rfl
    · split
      · rfl
      · rw [map_bind]
        rfl

theorem addBuff_relevel (b : Build K) (n : Nat) (name : String) (level : Option Nat) :
    (b.relevel n).addBuff name level = (·.relevel n) <$> b.addBuff name level := by
  unfold addBuff
  simp only [database_relevel, map_bind]
  refine bind_congr fun record => bind_congr fun f => ?_
  split
  · rfl
  · rfl

theorem setAura_relevel (b : Build K) (n : Nat) (choice : Option ModChoice) :
    (b.relevel n).setAura choice = (·.relevel n) <$> b.setAura choice := by
  cases choice with
  | none => rfl
  | some choice =>
    change (_ >>= _) = _ <$> (_ >>= _)
    rw [map_bind]
    refine bind_congr fun record => ?_
    rw [map_bind]
    rfl

theorem equipAll_relevel (b : Build K) (n : Nat) (choices : List ModChoice) :
    (b.relevel n).equipAll choices = (·.relevel n) <$> b.equipAll choices := by
  exact foldlM_hom (f := fun (b : Build K) (c : ModChoice) => b.equip c.id c.rank)
    (fun b c => b.equip_relevel n c.id c.rank) b choices

theorem addBuffs_relevel (b : Build K) (n : Nat) (choices : List BuffChoice) :
    (b.relevel n).addBuffs choices = (·.relevel n) <$> b.addBuffs choices := by
  exact foldlM_hom (f := fun (b : Build K) (c : BuffChoice) => b.addBuff c.name c.level)
    (fun b c => b.addBuff_relevel n c.name c.level) b choices

/-- The weapon of a character is loaded at another level as it is set to it. -/
theorem loadResonance_relevel (d : Database K) (r : CharacterRecord K) (o : BuildOptions K) (n : Nat) :
    loadResonance d r { o with characterLevel := some n } =
      Option.map (·.setLevel n) <$> loadResonance d r o := by
  have hLoad (name : String) :
      loadWeapon d name none (some n) = (·.setLevel n) <$> loadWeapon d name none o.characterLevel := by
    unfold loadWeapon
    rw [map_bind]
    exact bind_congr fun record => congrArg pure (Weapon.setLevel_make ..).symm
  unfold loadResonance
  cases r.resonanceWeapon with
  | none => rfl
  | some name =>
    dsimp only
    rw [hLoad, bind_map_left, map_bind]
    refine bind_congr fun w => ?_
    cases o.skillLevel with
    | none => rfl
    | some level => exact congrArg (pure ∘ some) (w.setSkillLevel_setLevel n level)

theorem bare_relevel (d : Database K) (settings : Settings K) (o : BuildOptions K) (n : Nat) :
    bare d settings { o with characterLevel := some n } = (·.relevel n) <$> bare d settings o := by
  unfold bare
  simp only [loadResonance_relevel, map_bind, bind_map_left]
  rfl

/-- To put a build together at another level is to set both levels afterwards. -/
theorem ofOptions_relevel (d : Database K) (settings : Settings K) (o : BuildOptions K) (n : Nat) :
    ofOptions d settings { o with characterLevel := some n } = (·.relevel n) <$> ofOptions d settings o := by
  unfold ofOptions
  rw [bare_relevel, bind_map_left, map_bind]
  refine bind_congr fun b => ?_
  rw [equipAll_relevel, bind_map_left, map_bind]
  refine bind_congr fun b => ?_
  dsimp only
  cases o.aura with
  | none => exact addBuffs_relevel b n _
  | some choice =>
    dsimp only
    rw [setAura_relevel, bind_map_left, map_bind]
    exact bind_congr fun b => addBuffs_relevel b n _

/-! ## What the level of the weapon matters to -/

theorem made_of_loadResonance {r : CharacterRecord K} {resonance : Option (Weapon K)}
    (h : loadResonance d r o = .ok resonance) : ∀ w ∈ resonance, w.Made := by
  cases hName : r.resonanceWeapon with
  | none =>
    rw [loadResonance_of_none hName] at h
    cases h
    intro w hw
    cases hw
  | some name =>
    obtain ⟨w, -, rfl⟩ := (loadResonance_eq_ok_iff hName).mp h
    rintro _ ⟨⟩
    exact Weapon.made_make ..

theorem made_of_ofOptions (h : ofOptions d settings o = .ok b) : ∀ w ∈ b.resonance, w.Made := by
  obtain ⟨b₀, hBare, hFrame⟩ := exists_bare_of_ofOptions h
  have hResonance : b.resonance = b₀.resonance := by rw [hFrame]
  rw [hResonance]
  exact made_of_loadResonance (loads_of_bare hBare).1

/-- Both builds have the same sources of bonuses. -/
theorem sources_relevel (h : ∀ w ∈ b.resonance, w.Made) (n : Nat) :
    (b.relevel n).sources = (b.setCharacterLevel n).sources := by
  have hBonuses : (b.relevel n).weapons.map (·.base.bonuses) =
      (b.setCharacterLevel n).weapons.map (·.base.bonuses) := by
    cases hWeapon : b.resonance with
    | none => simp [weapons, wielded, relevel, setCharacterLevel, hWeapon]
    | some w =>
      have hBase := congrArg WeaponBase.bonuses ((h w hWeapon).base_setLevel n)
      simp [weapons, wielded, relevel, setCharacterLevel, hWeapon, hBase]
  have hScope (c : ModCategory) : (b.relevel n).scope c = (b.setCharacterLevel n).scope c := by
    cases c with
    | resonance =>
      unfold scope relevel setCharacterLevel
      cases b.resonance <;> rfl
    | _ => rfl
  have hEquipment : (b.relevel n).equipment =
      { (b.setCharacterLevel n).equipment with weapons := (b.relevel n).weapons } := by
    simp only [equipment, hScope]
    rfl
  rw [sources, hEquipment, Equipment.toSources_congr hBonuses]
  rfl

/-- A build that is put together at a level has the weapon of the character at that level. A build whose character
is set to the level afterwards has not, and is the same otherwise: it has the same attributes, and any weapon has
the same stats in both. The stats of the weapon at the two levels differ in the attack alone, and not if it was at
the level before. -/
theorem ofOptions_characterLevel (h : ofOptions d settings o = .ok b) (n : Nat) :
    ∃ b', ofOptions d settings { o with characterLevel := some n } = .ok b' ∧
      b' = { b.setCharacterLevel n with resonance := b.resonance.map (·.setLevel n) } ∧
      b'.settle = (b.setCharacterLevel n).settle ∧
      (∀ w, b'.weaponStats w = (b.setCharacterLevel n).weaponStats w) ∧
      (∀ w ∈ b.resonance, b'.weaponStats (w.setLevel n) =
        { b'.weaponStats w with attack := (b'.weaponStats (w.setLevel n)).attack }) ∧
      ((∀ w ∈ b.resonance, w.level = Level.clamp Level.least Level.greatest n) →
        b' = b.setCharacterLevel n) := by
  have hMade := made_of_ofOptions h
  have hSources := sources_relevel hMade n
  have hSettle : (b.relevel n).settle = (b.setCharacterLevel n).settle := congrArg Sources.settle hSources
  refine ⟨b.relevel n, ?_, rfl, hSettle, fun w => ?_, fun w hw => ?_, fun hLevel => ?_⟩
  · rw [ofOptions_relevel, h]
    rfl
  · rw [weaponStats, hSources, hSettle, weaponStats]
  · unfold weaponStats Sources.weaponStats
    rw [(hMade w hw).base_setLevel n]
    rfl
  · have hWeapon : b.resonance.map (·.setLevel n) = b.resonance := by
      cases hResonance : b.resonance with
      | none => rfl
      | some w => exact congrArg some ((hMade w hResonance).setLevel_eq (hLevel w hResonance))
    rw [relevel, hWeapon]
    rfl

/-- The adept at the fortieth level. The weapon is there if the adept was put together there. -/
theorem ofOptions_characterLevel_adept : ∃ b b', ofOptions sanctum .default (atFifthLevel "术士") = .ok b ∧
    ofOptions sanctum .default { atFifthLevel "术士" with characterLevel := some 40 } = .ok b' ∧
    b'.settle = (b.setCharacterLevel 40).settle ∧ b'.resonance.map Weapon.level = some 40 ∧
    (b.setCharacterLevel 40).resonance.map Weapon.level = some 80 := by
  have h : ofOptions sanctum .default (atFifthLevel "术士") = .ok _ := rfl
  obtain ⟨b', hAgain, hSame, hSettle, -⟩ := ofOptions_characterLevel h 40
  refine ⟨_, b', h, hAgain, hSettle, ?_, rfl⟩
  rw [hSame]
  rfl

/-- The medium strikes with the weapon that stays behind: its attack and the score are other than those of a medium
who was put together at the fortieth level. -/
theorem setCharacterLevel_loses_medium :
    ∃ b b', ofOptions sanctum .default { atFifthLevel "灵媒" with action := "灵刃" } = .ok b ∧
      ofOptions sanctum .default { atFifthLevel "灵媒" with action := "灵刃", characterLevel := some 40 } = .ok b' ∧
      (b'.resonance.map fun w => (b'.weaponStats w).attack == 41.37) = some true ∧
      ((b.setCharacterLevel 40).resonance.map fun w =>
        ((b.setCharacterLevel 40).weaponStats w).attack == 100.0) = some true ∧
      (b'.score == (b.setCharacterLevel 40).score) = false :=
  ⟨_, _, rfl, rfl, by decide +kernel, by decide +kernel, by decide +kernel⟩

end Build

end Loadout
