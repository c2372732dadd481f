import Loadout.Proofs.Build.Sourced
import Mathlib.Data.List.Nodup

/-!
# Databases and their records

A database is filled record by record. The table of some records under their names and the table of the
same records under their ids are filled side by side, and where records share a name or an id, one of the
tables may have lost a record that the other one has kept. What stands under a name stands under its id as
well if no two records in these tables share an id.

* `find?_index`: of the records with one key a table holds the last;
* `Twins.find?_byId`: from a name to an id;
* `Loaded`, `loaded_ofJson?`: databases that have been filled;
* `UniqueIds`: databases where an id tells one record from the others.
-/

namespace Loadout.Database

section Index

variable {κ α : Type} [Key κ] [DecidableEq κ] {name : α → String} {id : α → Nat}
  {byName : Table String α} {byId : Table Nat α} {records : List α}

/-- Of the records with one key a table holds the last. -/
theorem find?_index (key : α → κ) (records : List α) (k : κ) :
    (index key records).find? k = records.reverse.find? fun r => key r = k := by
  rw [index, Table.find?_foldl_insert key (fun r => r), Table.find?_empty, Option.or_none, Option.map_id']

theorem mem_of_find?_index {key : α → κ} {k : κ} {r : α} (h : (index key records).find? k = some r) :
    r ∈ records := by
  rw [find?_index] at h
  exact List.mem_reverse.mp (List.mem_of_find?_eq_some h)

theorem exists_find?_index (key : α → κ) {r : α} (h : r ∈ records) :
    ∃ s, (index key records).find? (key r) = some s ∧ key s = key r := by
  cases hFound : (index key records).find? (key r) with
  | some s => exact ⟨s, rfl, key_eq_of_find?_index hFound⟩
  | none =>
    rw [find?_index, List.find?_eq_none] at hFound
    exact absurd (decide_eq_true rfl) (hFound r (List.mem_reverse.mpr h))

/-- A table that has been filled with records. -/
def Indexes (key : α → κ) (t : Table κ α) : Prop := ∃ records, t = index key records

/-- What is found under a key has that key. -/
theorem Indexes.key_eq {key : α → κ} {t : Table κ α} (h : Indexes key t) {lookup : Lookup}
    {text : String} {k : κ} {r : α} (hr : orNotFound lookup text (t.find? k) = .ok r) : key r = k := by
  obtain ⟨records, rfl⟩ := h
  exact key_eq_of_find?_index (eq_some_of_orNotFound hr)

/-- Two tables of the same records, under their names and under their ids. -/
def Twins (name : α → String) (id : α → Nat) (byName : Table String α) (byId : Table Nat α) : Prop :=
  ∃ records, byName = index name records ∧ byId = index id records

theorem Twins.indexes (h : Twins name id byName byId) : Indexes name byName := by
  obtain ⟨records, hNames, -⟩ := h
  exact ⟨records, hNames⟩

/-- One of two tables holds a record. -/
def Held (byName : Table String α) (byId : Table Nat α) (r : α) : Prop :=
  (∃ name, byName.find? name = some r) ∨ ∃ id, byId.find? id = some r

/-- The ids of the records that two tables hold tell the records apart. -/
def UniqueIn (id : α → Nat) (byName : Table String α) (byId : Table Nat α) : Prop :=
  ∀ r s, Held byName byId r → Held byName byId s → id r = id s → r = s

/-- What stands under a name stands under its id. -/
theorem Twins.find?_byId (h : Twins name id byName byId) (hUnique : UniqueIn id byName byId)
    {n : String} {r : α} (hr : byName.find? n = some r) : byId.find? (id r) = some r := by
  have hHeld : Held byName byId r := .inl ⟨n, hr⟩
  obtain ⟨records, rfl, rfl⟩ := h
  obtain ⟨s, hs, hId⟩ := exists_find?_index id (mem_of_find?_index hr)
  rw [hs, hUnique s r (.inr ⟨_, hs⟩) hHeld hId]

/-- Records that have no id in common have none in common in their tables. -/
theorem uniqueIn_of_nodup (h : (records.map id).Nodup) :
    UniqueIn id (index name records) (index id records) := by
  have hMem {r : α} (hr : Held (index name records) (index id records) r) : r ∈ records := by
    rcases hr with ⟨n, hn⟩ | ⟨i, hi⟩
    · exact mem_of_find?_index hn
    · exact mem_of_find?_index hi
  intro r s hr hs hId
  exact List.inj_on_of_nodup_map h (hMem hr) (hMem hs) hId

end Index

variable {K : Type}

/-! ## Filled databases -/

/-- The records of a database stand under their own names and ids. -/
structure Loaded (d : Database K) : Prop where
  characters : Twins CharacterRecord.name CharacterRecord.id d.characters d.charactersById
  weapons : Twins WeaponRecord.name WeaponRecord.id d.weapons d.weaponsById
  mods : Indexes ModRecord.id d.mods
  buffs : Indexes BuffRecord.name d.buffs
  monsters : Indexes MonsterRecord.name d.monsters

/-- An id belongs to one character, and to one weapon. -/
structure UniqueIds (d : Database K) : Prop where
  characters : UniqueIn CharacterRecord.id d.characters d.charactersById
  weapons : UniqueIn WeaponRecord.id d.weapons d.weaponsById

theorem loaded_ofJson? [Number K] {j : Json K} {d : Database K} (h : ofJson? j = some d) : d.Loaded := by
  simp only [ofJson?, Option.bind_eq_bind, Option.bind_eq_some_iff, Option.pure_def,
    Option.some.injEq] at h
  obtain ⟨-, -, characters, -, weapons, -, mods, -, buffs, -, monsters, -, -, -, -, -, rfl⟩ := h
  exact ⟨⟨characters, rfl, rfl⟩, ⟨weapons, rfl, rfl⟩, ⟨mods, rfl⟩, ⟨buffs, rfl⟩, ⟨monsters, rfl⟩⟩

variable {d : Database K}

theorem Loaded.indexed (h : d.Loaded) : d.Indexed := fun _ _ hr => h.mods.key_eq hr

theorem Loaded.named (h : d.Loaded) : d.Named := fun _ _ hr => h.weapons.indexes.key_eq hr

theorem Loaded.character_name (h : d.Loaded) {name : String} {r : CharacterRecord K}
    (hr : d.character name = .ok r) : r.name = name := h.characters.indexes.key_eq hr

theorem Loaded.buff_name (h : d.Loaded) {name : String} {r : BuffRecord K} (hr : d.buff name = .ok r) :
    r.name = name := h.buffs.key_eq hr

theorem Loaded.monster_name (h : d.Loaded) {name : String} {r : MonsterRecord K}
    (hr : d.monster name = .ok r) : r.name = name := h.monsters.key_eq hr

/-! ## From names to ids -/

theorem Loaded.characterById_id (h : d.Loaded) (hUnique : d.UniqueIds) {name : String}
    {r : CharacterRecord K} (hr : d.character name = .ok r) : d.characterById r.id = .ok r := by
  rw [characterById, h.characters.find?_byId hUnique.characters (eq_some_of_orNotFound hr)]
  rfl

theorem Loaded.weaponById_id (h : d.Loaded) (hUnique : d.UniqueIds) {name : String}
    {r : WeaponRecord K} (hr : d.weapon name = .ok r) : d.weaponById r.id = .ok r := by
  rw [weaponById, h.weapons.find?_byId hUnique.weapons (eq_some_of_orNotFound hr)]
  rfl

end Loadout.Database
