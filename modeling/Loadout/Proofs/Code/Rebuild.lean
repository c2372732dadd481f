import Loadout.Proofs.Build.Refill
import Loadout.Proofs.Code.Codec

/-!
# Builds from their codes

A code has the ids of a build and nothing else. Where the ids are as wide as the slots and tell the records
of the database apart, the character, the weapons and the mods that they lead to are of the same records as
those of the build, at other levels and ranks maybe. Whether mods can be equipped depends on the records
alone, so what the rules allowed once they allow again.

* `loadoutCode_fits`: the code of a well-formed build can be written;
* `toOptions_loadoutCode`: the options that it is read as;
* `exists_ofOptions_plainOptions`: options with its names and its ids lead to a build of its records;
* `ofCode_toCode`: so its code does.
-/

namespace Loadout.Build

variable {K : Type} {b : Build K} {d : Database K}

theorem get_mods_loadoutCode (b : Build K) (c : ModCategory) :
    b.loadoutCode.mods.get c = (b.mods.get c).map Mod.id := PerCategory.get_map _ b.mods c

theorem loadoutCode_fits (hWell : b.WellFormed) (hIds : ∀ id ∈ b.loadoutCode.ids, id ≤ 36 ^ 4 - 1) :
    b.loadoutCode.Fits where
  id_lt := LoadoutCode.forall_le_iff_lt.mp hIds
  length_le c := by
    rw [get_mods_loadoutCode, List.length_map]
    exact (hWell.holds c).length_le

/-- Two builds of the same character with the same weapons and the same mods, whatever their levels and
ranks. -/
structure SameRecords (b b' : Build K) : Prop where
  character : b'.character.record = b.character.record
  melee : b'.melee.record = b.melee.record
  ranged : b'.ranged.record = b.ranged.record
  mods : ∀ c, (b'.mods.get c).map Mod.record = (b.mods.get c).map Mod.record

theorem SameRecords.ids_eq {b' : Build K} (h : b.SameRecords b') (c : ModCategory) :
    (b'.mods.get c).map Mod.id = (b.mods.get c).map Mod.id := by
  have hIds := congrArg (List.map ModRecord.id) (h.mods c)
  rwa [List.map_map, List.map_map] at hIds

theorem SameRecords.loadoutCode_eq {b' : Build K} (h : b.SameRecords b') :
    b'.loadoutCode = b.loadoutCode := by
  have hMods : b'.loadoutCode.mods = b.loadoutCode.mods := PerCategory.ext_get fun c => by
    rw [get_mods_loadoutCode, get_mods_loadoutCode, h.ids_eq c]
  simp only [loadoutCode, h.character, h.melee, h.ranged] at hMods ⊢
  rw [hMods]

variable [Number K]

/-- The mods of a build, each at its highest rank. -/
def topMods (b : Build K) : PerCategory (List (Mod K)) :=
  b.mods.map fun ms => ms.map fun m => m.setRank m.record.quality.maxRank

theorem records_topMods (b : Build K) (c : ModCategory) :
    (b.topMods.get c).map Mod.record = (b.mods.get c).map Mod.record := by
  rw [topMods, PerCategory.get_map, List.map_map]
  rfl

/-- The options with the names and the ids of a build, everything else at its default. -/
def plainOptions (b : Build K) : BuildOptions K :=
  { BuildOptions.default with
    character := b.character.record.name
    melee := b.melee.name
    ranged := b.ranged.name
    mods := b.mods.map fun ms => ms.map fun m => ⟨m.id, none⟩ }

theorem toOptions_loadoutCode (hd : d.Loaded) (hUnique : d.UniqueIds) (hTraced : b.Traced d) :
    b.loadoutCode.toOptions d = .ok b.plainOptions := by
  obtain ⟨melee, refine, level, hMelee⟩ := hTraced.melee
  obtain ⟨ranged, refine', level', hRanged⟩ := hTraced.ranged
  have hMeleeRecord := hd.weaponById_id hUnique (ensures_loadWeapon d _ _ _ _ hMelee).1
  have hRangedRecord := hd.weaponById_id hUnique (ensures_loadWeapon d _ _ _ _ hRanged).1
  unfold LoadoutCode.toOptions
  simp only [loadoutCode, bind_eq_ok_iff]
  refine ⟨_, hd.characterById_id hUnique hTraced.character, _, hMeleeRecord, _, hRangedRecord, ?_⟩
  have hMods : (b.mods.map fun ms => ms.map Mod.id).map (fun ids => ids.map fun id => ⟨id, none⟩) =
      b.plainOptions.mods := PerCategory.ext_get fun c => by
    simp only [plainOptions, PerCategory.get_map, List.map_map, Function.comp_def]
  rw [hMods]
  rfl

/-- Options with the names and the ids of a build lead to a build of its records. -/
theorem exists_ofOptions_plainOptions (hd : d.Loaded) (settings : Settings K) (hTraced : b.Traced d)
    (hWell : b.WellFormed) : ∃ b', ofOptions d settings b.plainOptions = .ok b' ∧ b.SameRecords b' := by
  obtain ⟨_, _, _, hMelee⟩ := hTraced.melee
  obtain ⟨_, _, _, hRanged⟩ := hTraced.ranged
  obtain ⟨o, hResonance⟩ := hTraced.resonance
  obtain ⟨melee, hLoadMelee, hMeleeRecord⟩ := exists_loadWeapon hMelee none none
  obtain ⟨ranged, hLoadRanged, hRangedRecord⟩ := exists_loadWeapon hRanged none none
  rw [← name_of_loadWeapon hd.named hMelee] at hLoadMelee
  rw [← name_of_loadWeapon hd.named hRanged] at hLoadRanged
  obtain ⟨resonance, hLoadResonance, hResonanceRecord⟩ := exists_loadResonance hResonance b.plainOptions
  obtain ⟨b₀, hBare, hCharacter₀, hMelee₀, hRanged₀, hResonance₀⟩ : ∃ b₀ : Build K,
      bare d settings b.plainOptions = .ok b₀ ∧ b₀.character.record = b.character.record ∧
        b₀.melee.record = b.melee.record ∧ b₀.ranged.record = b.ranged.record ∧
        b₀.resonance.map Weapon.record = b.resonance.map Weapon.record :=
    ⟨_, bare_eq_ok_iff.mpr ⟨_, melee, ranged, resonance, _, hTraced.character, hLoadMelee, hLoadRanged,
      hLoadResonance, rfl, rfl, rfl⟩, rfl, hMeleeRecord, hRangedRecord, hResonanceRecord⟩
  have hChooses : b.plainOptions.Chooses d
      { b₀ with mods := b.topMods, aura := none, buffs := [], dynamicBuffs := [] } := {
    mods := fun c => by
      simp only [plainOptions, topMods, PerCategory.get_map, List.forall₂_map_left_iff,
        List.forall₂_map_right_iff, List.forall₂_same]
      intro m hm
      obtain ⟨choice, hMakes⟩ := hTraced.mods c m hm
      exact hMakes.id_eq hd.indexed ▸ hMakes.at none
    aura := .none
    buffs := .nil
    dynamicBuffs := .nil
    isDynamic_buffs := fun f hf => by cases hf
    isDynamic_dynamicBuffs := fun f hf => by cases hf }
  refine ⟨_, ofOptions_eq_ok hBare ((SameFrame.refl b₀).replace _ _ _ _) hChooses ?_, hCharacter₀, hMelee₀,
    hRanged₀, records_topMods b⟩
  exact hWell.of_records (fits_congr hCharacter₀ hMelee₀ hRanged₀ hResonance₀) (records_topMods b)

/-- The code of a build leads back to its character, its weapons and its mods, whatever has been done to the
build before. -/
theorem ofCode_toCode (hd : d.Loaded) (hUnique : d.UniqueIds) {settings : Settings K} {o : BuildOptions K}
    (h : ofOptions d settings o = .ok b) (changes : List (Change K))
    (hIds : ∀ id ∈ (b.runAll changes).loadoutCode.ids, id ≤ 36 ^ 4 - 1)
    (hZero : ∀ c, 0 ∉ (b.runAll changes).loadoutCode.mods.get c) :
    ∃ text b', (b.runAll changes).toCode = .ok text ∧ ofCode d text = .ok b' ∧
      b'.character.record = (b.runAll changes).character.record ∧
      b'.melee.record = (b.runAll changes).melee.record ∧
      b'.ranged.record = (b.runAll changes).ranged.record ∧
      (∀ c, (b'.mods.get c).map Mod.id = ((b.runAll changes).mods.get c).map Mod.id) ∧
      b'.toCode = .ok text := by
  have hTraced := traced_runAll hd h changes
  have hWell := (ensures_ofOptions d settings o b h).runAll changes
  generalize b.runAll changes = x at hTraced hWell hIds hZero ⊢
  obtain ⟨b', hOptions, hSame⟩ := exists_ofOptions_plainOptions hd .default hTraced hWell
  obtain ⟨text, hText⟩ : ∃ text, x.loadoutCode.encode = .ok text :=
    ⟨_, LoadoutCode.encode_eq_ok_iff.mpr ⟨loadoutCode_fits hWell hIds, rfl⟩⟩
  have hDecode : LoadoutCode.decode text = .ok x.loadoutCode := by
    rw [(LoadoutCode.decode_encode hText).2, LoadoutCode.withoutZeros_eq hZero]
  have hCode : ofCode d text = .ok b' := by
    rw [ofCode, hDecode]
    change (LoadoutCode.toOptions _ _ >>= _) = _
    rw [toOptions_loadoutCode hd hUnique hTraced]
    exact hOptions
  refine ⟨text, b', hText, hCode, hSame.character, hSame.melee, hSame.ranged, hSame.ids_eq, ?_⟩
  rw [toCode, hSame.loadoutCode_eq]
  exact hText

/-! ## A build with another sword -/

theorem loaded_armory : armory.Loaded where
  characters := ⟨[bearer], rfl, rfl⟩
  weapons := ⟨[blade 2 "刀" "太刀", blade 3 "剑" "单手剑"], rfl, rfl⟩
  mods := ⟨[exclusiveMod 4 "迅捷" (some "太刀"), exclusiveMod 5 "坚韧" none], rfl⟩
  buffs := ⟨[], rfl⟩
  monsters := ⟨[], rfl⟩

theorem uniqueIds_armory : armory.UniqueIds where
  characters := by
    have hNodup : ([bearer].map CharacterRecord.id).Nodup := List.nodup_singleton _
    exact (Database.uniqueIn_of_nodup hNodup : Database.UniqueIn CharacterRecord.id
      (Database.index CharacterRecord.name [bearer]) (Database.index CharacterRecord.id [bearer]))
  weapons := by
    have hNodup : ([blade 2 "刀" "太刀", blade 3 "剑" "单手剑"].map WeaponRecord.id).Nodup := by decide
    exact (Database.uniqueIn_of_nodup hNodup : Database.UniqueIn WeaponRecord.id
      (Database.index WeaponRecord.name _) (Database.index WeaponRecord.id _))

/-- A sword at its first level and a mod at its first rank have a code that brings them back. -/
theorem ofCode_toCode_armory : ∃ b text b', ofOptions armory .default swordsman = .ok b ∧
    (b.runAll [.setWeapon .melee "剑" none (some 1), .equip 5 (some 0)]).toCode = .ok text ∧
    ofCode armory text = .ok b' ∧ b'.melee.record.name = "剑" ∧ (b'.mods.get .melee).map Mod.id = [5] ∧
    b'.toCode = .ok text := by
  have h : ofOptions armory .default swordsman = .ok _ := rfl
  obtain ⟨text, b', hText, hCode, -, hMelee, -, hMods, hAgain⟩ := ofCode_toCode loaded_armory
    uniqueIds_armory h [.setWeapon .melee "剑" none (some 1), .equip 5 (some 0)]
    (by decide) (fun c => by cases c <;> decide)
  exact ⟨_, text, b', h, hText, hCode, congrArg WeaponRecord.name hMelee, hMods .melee, hAgain⟩

end Loadout.Build
