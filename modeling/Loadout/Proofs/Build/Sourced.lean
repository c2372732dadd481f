import Loadout.Proofs.Build.Outfit

/-!
# Where the mods of a build come from

A database that has been loaded keeps every mod under its own id (`Database.Indexed`) and every weapon
under its own name (`Database.Named`). The mods of a build on such a database are what it has under their
ids (`Build.BuiltOn`), so mods of one id are of one category.

* `BuiltOn.apply`: no change brings a mod in from elsewhere;
* `builtOn_runAll`: the mods of a build from options come from the database, whatever has been done to
  the build since;
* `BuiltOn.category_eq`: an id belongs to one category.
-/

namespace Loadout

variable {K : Type}

/-! ## Databases -/

namespace Database

/-- Every mod stands under its own id. -/
def Indexed (d : Database K) : Prop := ∀ id r, d.mod id = .ok r → r.id = id

/-- Every weapon stands under its own name. -/
def Named (d : Database K) : Prop := ∀ name r, d.weapon name = .ok r → r.name = name

section Index

variable {κ α : Type} [Key κ] [DecidableEq κ] {key : α → κ}

theorem key_eq_of_find?_foldl {t : Table κ α} (ht : ∀ k r, t.find? k = some r → key r = k)
    (records : List α) {k : κ} {r : α}
    (h : (records.foldl (fun t r => t.insert (key r) r) t).find? k = some r) : key r = k := by
  induction records generalizing t with
  | nil => exact ht k r h
  | cons head rest ih =>
    refine ih ?_ h
    intro k r hr
    change (t.alter (key head) fun _ => head).find? k = some r at hr
    rw [Table.find?_alter] at hr
    split at hr
    · rename_i hKey
      cases hr
      exact hKey
    · exact ht k r hr

theorem key_eq_of_find?_index {records : List α} {k : κ} {r : α}
    (h : (index key records).find? k = some r) : key r = k := by
  refine key_eq_of_find?_foldl ?_ records h
  intro k r hr
  rw [Table.find?_empty] at hr
  cases hr

end Index

theorem eq_some_of_orNotFound {α : Type} {table : Lookup} {key : String} {found : Option α} {a : α}
    (h : orNotFound table key found = .ok a) : found = some a := by
  cases found with
  | none => cases h
  | some a' =>
    cases h
    rfl

theorem find?_of_mod_eq_ok {d : Database K} {id : Nat} {r : ModRecord K} (h : d.mod id = .ok r) :
    d.mods.find? id = some r := eq_some_of_orNotFound h

/-- What has been loaded is indexed. -/
theorem indexed_ofJson? [Number K] {j : Json K} {d : Database K} (h : ofJson? j = some d) :
    d.Indexed := by
  simp only [ofJson?, Option.bind_eq_bind, Option.bind_eq_some_iff, Option.pure_def,
    Option.some.injEq] at h
  obtain ⟨-, -, -, -, -, -, mods, -, -, -, -, -, -, -, -, -, rfl⟩ := h
  intro id r hr
  exact key_eq_of_find?_index (find?_of_mod_eq_ok hr)

theorem named_ofJson? [Number K] {j : Json K} {d : Database K} (h : ofJson? j = some d) : d.Named := by
  simp only [ofJson?, Option.bind_eq_bind, Option.bind_eq_some_iff, Option.pure_def,
    Option.some.injEq] at h
  obtain ⟨-, -, -, -, weapons, -, -, -, -, -, -, -, -, -, -, -, rfl⟩ := h
  intro name r hr
  exact key_eq_of_find?_index (eq_some_of_orNotFound hr)

end Database

namespace Build

/-! ## Builds -/

/-- The mods of a build are those of a database. -/
structure BuiltOn (b : Build K) (d : Database K) : Prop where
  database_eq : b.database = d
  mod_eq : ∀ c, ∀ m ∈ b.mods.get c, d.mod m.id = .ok m.record

variable {b b' : Build K} {d : Database K}

/-- Mods of one id are of one category. -/
theorem BuiltOn.category_eq (h : b.BuiltOn d) (hWell : b.WellFormed) {c c' : ModCategory} {m n : Mod K}
    (hm : m ∈ b.mods.get c) (hn : n ∈ b.mods.get c') (hId : m.id = n.id) : c = c' := by
  have hRecord := h.mod_eq c m hm
  rw [hId, h.mod_eq c' n hn] at hRecord
  have hCategory : n.category = m.category := congrArg ModRecord.category (Except.ok.inj hRecord)
  rw [← (hWell.holds c).category_eq m hm, ← hCategory, (hWell.holds c').category_eq n hn]

/-- Mods may be taken out. -/
theorem BuiltOn.of_subset (h : b.BuiltOn d) (hDatabase : b'.database = b.database)
    (hMods : ∀ c, b'.mods.get c ⊆ b.mods.get c) : b'.BuiltOn d where
  database_eq := hDatabase.trans h.database_eq
  mod_eq c m hm := h.mod_eq c m (hMods c hm)

theorem BuiltOn.congr (h : b.BuiltOn d) (hDatabase : b'.database = b.database)
    (hMods : b'.mods = b.mods) : b'.BuiltOn d := by
  apply h.of_subset hDatabase
  intro c
  rw [hMods]
  exact List.Subset.refl _

theorem BuiltOn.dropUnfit (h : b.BuiltOn d) : b.dropUnfit.1.BuiltOn d :=
  h.of_subset rfl fun c => (get_dropUnfit_sublist b c).subset

theorem BuiltOn.unequip? (h : b.BuiltOn d) {id : Nat} (hTaken : b.unequip? id = some b') :
    b'.BuiltOn d := by
  obtain ⟨c, rest, hRest, rfl⟩ := unequip?_eq_some hTaken
  exact h.of_subset rfl fun c' => (get_set_sublist (sublist_of_without? hRest) c').subset

theorem BuiltOn.clear (h : b.BuiltOn d) (c : ModCategory) : (b.clear c).BuiltOn d :=
  h.of_subset rfl fun c' => (get_set_sublist (List.nil_sublist _) c').subset

variable [Number K]

theorem BuiltOn.equip (h : b.BuiltOn d) (hd : d.Indexed) (id : Nat) (rank : Option Nat) :
    Ensures (b.equip id rank) (BuiltOn · d) := by
  intro b' hEquip
  obtain ⟨r, m, hRecord, hMod, -, rfl⟩ := ensures_equip b id rank b' hEquip
  rw [h.database_eq] at hRecord
  have hEq : m.record = r := ensures_ofRecord _ _ _ m hMod
  refine ⟨h.database_eq, ?_⟩
  intro c n hn
  by_cases hc : r.category = c
  · subst hc
    change n ∈ (b.mods.set r.category _).get r.category at hn
    rw [PerCategory.get_set_self] at hn
    rcases List.mem_append.mp hn with hn | hn
    · exact h.mod_eq _ n hn
    · rw [List.mem_singleton.mp hn, Mod.id, hEq, hd id r hRecord]
      exact hRecord
  · change n ∈ (b.mods.set r.category _).get c at hn
    rw [PerCategory.get_set_of_ne _ hc] at hn
    exact h.mod_eq c n hn

theorem BuiltOn.setWeapon (h : b.BuiltOn d) (slot : WeaponSlot) (name : String)
    (refine level : Option Nat) :
    Ensures (b.setWeapon slot name refine level) fun changed => changed.1.BuiltOn d := by
  intro changed hSet
  obtain ⟨w, -, ⟨-, rfl⟩ | ⟨-, rfl⟩⟩ := ensures_setWeapon b slot name refine level changed hSet
  · have hMelee : ({ b with melee := w } : Build K).BuiltOn d := h.congr rfl rfl
    exact hMelee.dropUnfit
  · have hRanged : ({ b with ranged := w } : Build K).BuiltOn d := h.congr rfl rfl
    exact hRanged.dropUnfit

theorem BuiltOn.setAura (h : b.BuiltOn d) (choice : Option ModChoice) :
    Ensures (b.setAura choice) (BuiltOn · d) := by
  cases choice with
  | none => exact ensures_ok (h.congr rfl rfl)
  | some c =>
    exact (ensures_anything _).bind fun _ _ =>
      (ensures_anything _).bind fun m _ => ensures_ok (h.congr rfl rfl)

theorem BuiltOn.addBuff (h : b.BuiltOn d) (name : String) (level : Option Nat) :
    Ensures (b.addBuff name level) (BuiltOn · d) := by
  refine (ensures_anything _).bind fun _ _ => (ensures_anything _).bind fun buff _ => ?_
  split
  · exact ensures_ok (h.congr rfl rfl)
  · exact ensures_ok (h.congr rfl rfl)

/-- Whatever the change, no mod comes in from elsewhere. -/
theorem BuiltOn.apply (h : b.BuiltOn d) (hd : d.Indexed) (c : Change K) :
    Ensures (c.apply b) (BuiltOn · d) := by
  cases c with
  | equip id rank => exact h.equip hd id rank
  | unequip id =>
    refine ensures_ok ?_
    cases hTaken : b.unequip? id with
    | none => exact h
    | some b' => exact h.unequip? hTaken
  | clear c => exact ensures_ok (h.clear c)
  | dropUnfit => exact ensures_ok h.dropUnfit
  | setWeapon slot name refine level => exact (h.setWeapon slot name refine level).map
  | setAura choice => exact h.setAura choice
  | addBuff name level => exact h.addBuff name level
  | removeBuff name => exact ensures_ok (h.congr rfl rfl)
  | setCharacterLevel n => exact ensures_ok (h.congr rfl rfl)
  | setEnemy enemy => exact ensures_ok (h.congr rfl rfl)
  | setHealth health => exact ensures_ok (h.congr rfl rfl)
  | setActionName name => exact ensures_ok (h.congr rfl rfl)
  | setTarget formula => exact ensures_ok (h.congr rfl rfl)
  | setTimeline timeline => exact ensures_ok (h.congr rfl rfl)

/-! ## Builds from options -/

theorem ensures_bare_builtOn (d : Database K) (settings : Settings K) (o : BuildOptions K) :
    Ensures (bare d settings o) (BuiltOn · d) := by
  refine (ensures_anything _).bind fun record _ => ?_
  refine (ensures_anything _).bind fun melee _ => ?_
  refine (ensures_anything _).bind fun ranged _ => ?_
  refine (ensures_anything _).bind fun resonance _ => ?_
  refine (ensures_anything _).bind fun enemy _ => ?_
  refine (ensures_anything _).bind fun _ _ => ensures_ok ⟨rfl, ?_⟩
  intro c m hm
  rw [PerCategory.get_same] at hm
  cases hm

/-- The mods of a build from options come from the database, whatever has been done to it since. -/
theorem builtOn_runAll (hd : d.Indexed) {settings : Settings K} {o : BuildOptions K}
    (h : ofOptions d settings o = .ok b) (changes : List (Change K)) : (b.runAll changes).BuiltOn d := by
  have hApply (b : Build K) (c : Change K) (hb : b.BuiltOn d) : Ensures (c.apply b) (BuiltOn · d) :=
    hb.apply hd c
  have hStart := ensures_ofOptions_of_apply hApply (ensures_bare_builtOn d settings o)
  exact runAll_of_apply hApply (hStart b h) changes

end Build

end Loadout
