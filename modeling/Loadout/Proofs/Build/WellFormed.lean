import Loadout.Number.Binary
import Loadout.Proofs.Build.Edit
import Loadout.Proofs.Build.Exclusion

/-!
# Every build is well formed

A category holds mods of its own, no more than it has slots for, and any two of them are apart
(`ModCategory.Holds`); every mod fits the character and the weapons (`Build.WellFormed`). Taking out
mods keeps this, and so does a change of anything but mods and weapons (`WellFormed.of_sublist`). To
equip a mod all of it is checked. A new weapon may leave mods behind that do not fit, but what
the categories hold is as before, and those mods are taken out next (`wellFormed_dropUnfit`).

* `WellFormed.apply`: a change makes a well-formed build of a well-formed build;
* `ensures_ofOptions`: a build from options is well formed;
* `wellFormed_runAll`: so is every build that changes in place make of it, and a change that fails
  leaves the build as it was.
-/

namespace Loadout

/-! ## Postconditions -/

section Postconditions

variable {ε α β : Type}

/-- What a computation gives, if it gives anything, satisfies `P`. -/
def Ensures (x : Except ε α) (P : α → Prop) : Prop := ∀ a, x = .ok a → P a

theorem ensures_ok {P : α → Prop} {a : α} (h : P a) : Ensures (.ok a : Except ε α) P := by
  intro a' ha
  cases ha
  exact h

theorem ensures_error {P : α → Prop} (e : ε) : Ensures (.error e : Except ε α) P := by
  intro a ha
  cases ha

theorem ensures_anything (x : Except ε α) : Ensures x fun _ => True := fun _ _ => trivial

theorem ensures_eq (x : Except ε α) : Ensures x fun a => x = .ok a := fun _ h => h

theorem Ensures.bind {x : Except ε α} {f : α → Except ε β} {P : α → Prop} {Q : β → Prop}
    (hx : Ensures x P) (hf : ∀ a, P a → Ensures (f a) Q) : Ensures (x >>= f) Q := by
  intro b hb
  cases hOutcome : x with
  | error e =>
    rw [hOutcome] at hb
    cases hb
  | ok a =>
    rw [hOutcome] at hb
    exact hf a (hx a hOutcome) b hb

theorem Ensures.map {x : Except ε α} {f : α → β} {Q : β → Prop}
    (hx : Ensures x fun a => Q (f a)) : Ensures (x.map f) Q := by
  cases x with
  | error e => exact ensures_error e
  | ok a => exact ensures_ok (hx a rfl)

theorem ensures_foldlM {f : β → α → Except ε β} {I : β → Prop} {b : β} (hb : I b)
    (hf : ∀ b a, I b → Ensures (f b a) I) (as : List α) : Ensures (as.foldlM f b) I := by
  induction as generalizing b with
  | nil => exact ensures_ok hb
  | cons a rest ih =>
    rw [List.foldlM_cons]
    exact (hf b a hb).bind fun _ hb' => ih hb'

end Postconditions

variable {K : Type}

/-! ## What a category holds -/

/-- Mods that may fill a category. -/
structure ModCategory.Holds (c : ModCategory) (ms : List (Mod K)) : Prop where
  length_le : ms.length ≤ c.cap
  category_eq : ∀ m ∈ ms, m.category = c
  apart : ms.Pairwise fun m n => m.record.Apart n.record

namespace ModCategory

variable {c : ModCategory} {ms ns : List (Mod K)}

theorem holds_nil (c : ModCategory) : c.Holds ([] : List (Mod K)) := by
  refine ⟨Nat.zero_le _, ?_, .nil⟩
  intro m hm
  cases hm

theorem Holds.sublist (h : c.Holds ms) (hs : ns.Sublist ms) : c.Holds ns where
  length_le := Nat.le_trans hs.length_le h.length_le
  category_eq m hm := h.category_eq m (hs.subset hm)
  apart := h.apart.sublist hs

theorem Holds.append (h : c.Holds ms) {m : Mod K} (hCap : ms.length < c.cap)
    (hCategory : m.category = c) (hApart : ∀ n ∈ ms, n.record.Apart m.record) :
    c.Holds (ms ++ [m]) where
  length_le := by
    rw [List.length_append, List.length_singleton]
    omega
  category_eq n hn := by
    rcases List.mem_append.mp hn with hn | hn
    · exact h.category_eq n hn
    · rw [List.mem_singleton.mp hn, hCategory]
  apart := by
    rw [List.pairwise_append]
    refine ⟨h.apart, List.pairwise_singleton _ _, ?_⟩
    intro n hn m' hm'
    rw [List.mem_singleton.mp hm']
    exact hApart n hn

end ModCategory

namespace Build

/-- Each category holds what it may hold, and every mod fits. -/
structure WellFormed (b : Build K) : Prop where
  holds : ∀ c : ModCategory, c.Holds (b.mods.get c)
  fits : ∀ c, ∀ m ∈ b.mods.get c, b.fits m.record = true

variable {b b' : Build K}

/-- Mods may be taken out, and anything that restricts no mod may be replaced. -/
theorem WellFormed.of_sublist (h : b.WellFormed) (hFits : b'.fits = b.fits)
    (hMods : ∀ c, (b'.mods.get c).Sublist (b.mods.get c)) : b'.WellFormed where
  holds c := (h.holds c).sublist (hMods c)
  fits c m hm := by
    rw [hFits]
    exact h.fits c m ((hMods c).subset hm)

theorem WellFormed.congr (h : b.WellFormed) (hFits : b'.fits = b.fits) (hMods : b'.mods = b.mods) :
    b'.WellFormed := by
  apply h.of_sublist hFits
  intro c
  exact hMods ▸ .refl _

theorem wellFormed_of_mods_eq_nil (h : ∀ c, b.mods.get c = []) : b.WellFormed where
  holds c := by
    rw [h c]
    exact c.holds_nil
  fits c m hm := by
    rw [h c] at hm
    cases hm

/-! ## Taking out mods -/

theorem get_set_sublist {p : PerCategory (List (Mod K))} {c : ModCategory} {ms : List (Mod K)}
    (h : ms.Sublist (p.get c)) (d : ModCategory) : ((p.set c ms).get d).Sublist (p.get d) := by
  by_cases hcd : c = d
  · subst hcd
    rw [PerCategory.get_set_self]
    exact h
  · have hGet : (p.set c ms).get d = p.get d := PerCategory.get_set_of_ne p hcd ms
    exact hGet ▸ .refl _

theorem sublist_of_without? {id : Nat} {ms rest : List (Mod K)} (h : without? id ms = some rest) :
    rest.Sublist ms := by
  induction ms generalizing rest with
  | nil => cases h
  | cons m ms ih =>
    rw [without?] at h
    split at h
    · cases h
      exact List.sublist_cons_self m _
    · obtain ⟨rest', hRest, rfl⟩ := Option.map_eq_some_iff.mp h
      exact (ih hRest).cons_cons m

theorem WellFormed.unequip? (h : b.WellFormed) {id : Nat} (hTaken : b.unequip? id = some b') :
    b'.WellFormed := by
  obtain ⟨c, -, hc⟩ := List.exists_of_findSome?_eq_some hTaken
  obtain ⟨rest, hRest, rfl⟩ := Option.map_eq_some_iff.mp hc
  exact h.of_sublist rfl (get_set_sublist (sublist_of_without? hRest))

theorem WellFormed.clear (h : b.WellFormed) (c : ModCategory) : (b.clear c).WellFormed :=
  h.of_sublist rfl (get_set_sublist (List.nil_sublist _))

/-- Once those that do not fit have been taken out, it does not matter whether the others have. -/
theorem wellFormed_dropUnfit (h : ∀ c : ModCategory, c.Holds (b.mods.get c)) :
    b.dropUnfit.1.WellFormed := by
  have hMods : ∀ c, b.dropUnfit.1.mods.get c = (b.mods.get c).filter fun m => b.fits m.record :=
    fun c => PerCategory.get_map _ b.mods c
  constructor
  · intro c
    rw [hMods c]
    exact (h c).sublist List.filter_sublist
  · intro c m hm
    rw [hMods c] at hm
    exact (List.mem_filter.mp hm).2

/-! ## Changes -/

theorem WellFormed.append (h : b.WellFormed) {m : Mod K}
    (hCap : (b.mods.get m.category).length < m.category.cap)
    (hAdmits : (b.exclusion m.category).admits m.record = true) (hFits : b.fits m.record = true) :
    ({ b with mods := b.mods.set m.category (b.mods.get m.category ++ [m]) } :
      Build K).WellFormed := by
  rw [exclusion, (Exclusion.describes_ofMods _).admits_iff] at hAdmits
  have hApart : ∀ n ∈ b.mods.get m.category, n.record.Apart m.record :=
    fun n hn => hAdmits n.record (List.mem_map_of_mem hn)
  constructor
  · intro c
    by_cases hc : m.category = c
    · subst hc
      rw [PerCategory.get_set_self]
      exact (h.holds m.category).append hCap rfl hApart
    · rw [PerCategory.get_set_of_ne _ hc]
      exact h.holds c
  · intro c n hn
    by_cases hc : m.category = c
    · subst hc
      rw [PerCategory.get_set_self] at hn
      rcases List.mem_append.mp hn with hn | hn
      · exact h.fits m.category n hn
      · rw [List.mem_singleton.mp hn]
        exact hFits
    · rw [PerCategory.get_set_of_ne _ hc] at hn
      exact h.fits c n hn

variable [Number K]

theorem ensures_ofRecord (r : ModRecord K) (effect : Option (BuffRecord K)) (rank : Option Nat) :
    Ensures (Mod.ofRecord r effect rank) fun m => m.record = r :=
  (ensures_anything _).bind fun _ _ => ensures_ok rfl

theorem WellFormed.equip (h : b.WellFormed) (id : Nat) (rank : Option Nat) :
    Ensures (b.equip id rank) WellFormed := by
  unfold Build.equip
  refine (ensures_anything _).bind fun record _ => ?_
  dsimp only
  split
  · exact ensures_error _
  next hFull =>
  split
  · exact ensures_error _
  next hAdmits =>
  split
  · exact ensures_error _
  next hFits =>
  refine (ensures_ofRecord record _ rank).bind ?_
  rintro m rfl
  simp only [Bool.not_eq_true, Bool.not_eq_false'] at hAdmits hFits
  exact ensures_ok (h.append (Nat.lt_of_not_le hFull) hAdmits hFits)

theorem WellFormed.setAura (h : b.WellFormed) (choice : Option ModChoice) :
    Ensures (b.setAura choice) WellFormed := by
  have hAura : ∀ aura, ({ b with aura := aura } : Build K).WellFormed :=
    fun _ => h.congr rfl rfl
  cases choice with
  | none => exact ensures_ok (hAura none)
  | some c =>
    exact (ensures_anything _).bind fun _ _ =>
      (ensures_anything _).bind fun m _ => ensures_ok (hAura (some m))

theorem WellFormed.addBuff (h : b.WellFormed) (name : String) (level : Option Nat) :
    Ensures (b.addBuff name level) WellFormed := by
  refine (ensures_anything _).bind fun _ _ => (ensures_anything _).bind fun buff _ => ?_
  split
  · exact ensures_ok (h.congr rfl rfl)
  · exact ensures_ok (h.congr rfl rfl)

theorem WellFormed.setWeapon (h : b.WellFormed) (slot : WeaponSlot) (name : String)
    (refine level : Option Nat) :
    Ensures (b.setWeapon slot name refine level) fun r => r.1.WellFormed := by
  refine (ensures_anything _).bind fun weapon _ => ?_
  cases slot with
  | melee | ranged => exact ensures_ok (wellFormed_dropUnfit h.holds)
  | resonance => exact ensures_error _

/-- Whatever the change, it makes a well-formed build or none. -/
theorem WellFormed.apply (h : b.WellFormed) (c : Change K) : Ensures (c.apply b) WellFormed := by
  cases c with
  | equip id rank => exact h.equip id rank
  | unequip id =>
    refine ensures_ok ?_
    cases hTaken : b.unequip? id with
    | none => exact h
    | some b' => exact h.unequip? hTaken
  | clear c => exact ensures_ok (h.clear c)
  | dropUnfit => exact ensures_ok (wellFormed_dropUnfit h.holds)
  | setWeapon slot name refine level => exact (h.setWeapon slot name refine level).map
  | setAura choice => exact h.setAura choice
  | addBuff name level => exact h.addBuff name level
  | removeBuff name => exact ensures_ok (h.congr rfl rfl)
  | setCharacterLevel n => exact ensures_ok (h.congr rfl rfl)
  | setEnemy enemy => exact ensures_ok (h.congr rfl rfl)
  | setHealth health => exact ensures_ok (h.congr rfl rfl)
  | setActionName name => exact ensures_ok (h.congr rfl rfl)
  | setTarget formula => exact ensures_ok (h.congr rfl rfl)
  | setTimeline timeline => exact ensures_ok (h.congr rfl rfl)

/-! ## Builds from options -/

theorem ensures_bare (d : Database K) (settings : Settings K) (o : BuildOptions K) :
    Ensures (bare d settings o) WellFormed := by
  refine (ensures_anything _).bind fun record _ => ?_
  refine (ensures_anything _).bind fun melee _ => ?_
  refine (ensures_anything _).bind fun ranged _ => ?_
  refine (ensures_anything _).bind fun resonance _ => ?_
  refine (ensures_anything _).bind fun enemy _ => ?_
  refine (ensures_anything _).bind fun _ _ => ?_
  exact ensures_ok (wellFormed_of_mods_eq_nil (PerCategory.get_same []))

/-- What neither mods nor buffs break holds of a build from options, if it does before they are added. -/
theorem ensures_ofOptions_of_steps {I : Build K → Prop}
    (hEquip : ∀ b id rank, I b → Ensures (b.equip id rank) I)
    (hAura : ∀ b choice, I b → Ensures (b.setAura choice) I)
    (hBuff : ∀ b name level, I b → Ensures (b.addBuff name level) I) {d : Database K}
    {settings : Settings K} {o : BuildOptions K} (hBare : Ensures (bare d settings o) I) :
    Ensures (ofOptions d settings o) I := by
  have hBuffs (b : Build K) (hb : I b) : Ensures (b.addBuffs (o.buffs ++ o.dynamicBuffs)) I :=
    ensures_foldlM hb (fun b choice hb => hBuff b choice.name choice.level hb) _
  refine hBare.bind fun b₁ h₁ => ?_
  have hMods := ensures_foldlM h₁ fun b (choice : ModChoice) hb => hEquip b choice.id choice.rank hb
  refine (hMods _).bind fun b₂ h₂ => ?_
  dsimp only
  split
  · exact (hAura b₂ _ h₂).bind hBuffs
  · exact hBuffs b₂ h₂

/-- What no change breaks holds of a build from options, if it does before the mods and buffs are
added. -/
theorem ensures_ofOptions_of_apply {I : Build K → Prop}
    (hApply : ∀ b (c : Change K), I b → Ensures (c.apply b) I) {d : Database K} {settings : Settings K}
    {o : BuildOptions K} (hBare : Ensures (bare d settings o) I) :
    Ensures (ofOptions d settings o) I :=
  ensures_ofOptions_of_steps (fun b id rank => hApply b (.equip id rank))
    (fun b choice => hApply b (.setAura choice)) (fun b name level => hApply b (.addBuff name level))
    hBare

theorem ensures_ofOptions (d : Database K) (settings : Settings K) (o : BuildOptions K) :
    Ensures (ofOptions d settings o) WellFormed :=
  ensures_ofOptions_of_apply (fun _ c h => h.apply c) (ensures_bare d settings o)

/-! ## Builds that are changed in place -/

theorem after_perform (c : Change K) (b : Build K) :
    c.perform.after b = match c.apply b with
      | .ok b' => b'
      | .error _ => b := by
  rw [Edit.after, c.perform_eq]
  cases c.apply b <;> rfl

theorem eq_of_perform_eq_error {c : Change K} {e : BuildError} (h : c.perform b = .error e b') :
    b' = b := by
  rw [c.perform_eq] at h
  cases hApply : c.apply b with
  | ok b'' =>
    rw [hApply] at h
    cases h
  | error e' =>
    rw [hApply] at h
    cases h
    rfl

theorem perform_of_apply {I : Build K → Prop} (hApply : ∀ b (c : Change K), I b → Ensures (c.apply b) I)
    (hb : I b) (c : Change K) : I (c.perform.after b) := by
  rw [after_perform]
  cases hOutcome : c.apply b with
  | ok b' => exact hApply b c hb b' hOutcome
  | error e => exact hb

/-- What no change breaks holds however often a build is changed. -/
theorem runAll_of_apply {I : Build K → Prop} (hApply : ∀ b (c : Change K), I b → Ensures (c.apply b) I)
    (hb : I b) (changes : List (Change K)) : I (b.runAll changes) := by
  induction changes generalizing b with
  | nil => exact hb
  | cons c rest ih => exact ih (perform_of_apply hApply hb c)

theorem WellFormed.runAll (h : b.WellFormed) (changes : List (Change K)) :
    (b.runAll changes).WellFormed :=
  runAll_of_apply (fun _ c h => h.apply c) h changes

/-- Whatever has been done to a build from options, it is well formed, and a change that fails next
leaves it as it is. -/
theorem wellFormed_runAll {d : Database K} {settings : Settings K} {o : BuildOptions K}
    (h : ofOptions d settings o = .ok b) (changes : List (Change K)) :
    (b.runAll changes).WellFormed ∧
      ∀ (c : Change K) (e : BuildError) (b' : Build K),
        c.perform (b.runAll changes) = .error e b' → b' = b.runAll changes :=
  ⟨(ensures_ofOptions d settings o b h).runAll changes, fun _ _ _ => eq_of_perform_eq_error⟩

/-! ## A build that exchanges a mod -/

/-- A melee weapon of a class, without anything else that matters here. -/
def blade (id : Nat) (name category : String) : WeaponRecord Float where
  id := id
  name := name
  kind := .melee
  category := category
  damageType := "斩击"
  attack := 100.0
  critRate := 0.2
  critDamage := 2.0
  triggerRate := 0.1
  multiplier := 1.0
  fireRate := none
  magazine := none
  reload := none
  bonuses := .empty
  skills := []
  baseMultiplier := none

/-- An exclusive mod for melee weapons. -/
def exclusiveMod (id : Nat) (name : String) (restriction : Option String) : ModRecord Float where
  id := id
  name := name
  series := "狮鹫"
  quality := .gold
  tolerance := 10
  category := .melee
  polarity := none
  element := none
  restriction := restriction
  exclusive := true
  bonuses := .empty
  conditional := none

def bearer : CharacterRecord Float where
  id := 1
  name := "测试"
  element := "光"
  attack := 300.0
  health := 1000.0
  shield := 100.0
  defense := 50.0
  sanity := 200.0
  bonuses := .empty
  skills := []
  resonanceWeapon := none

def armory : Database Float where
  characters := .ofList [("测试", bearer)]
  charactersById := .ofList [(1, bearer)]
  weapons := .ofList [("刀", blade 2 "刀" "太刀"), ("剑", blade 3 "剑" "单手剑")]
  weaponsById := .ofList [(2, blade 2 "刀" "太刀"), (3, blade 3 "剑" "单手剑")]
  mods := .ofList [(4, exclusiveMod 4 "迅捷" (some "太刀")), (5, exclusiveMod 5 "坚韧" none)]
  buffs := .empty
  monsters := .empty
  effects := .empty
  multipliers := .empty

def swordsman : BuildOptions Float :=
  { BuildOptions.default with
    character := "测试"
    melee := "刀"
    ranged := "刀"
    mods := ⟨[], [⟨4, none⟩], [], []⟩ }

/-- The mod of the sword excludes another one of its series, until a weapon that it does not fit
takes the place of the sword. -/
theorem wellFormed_runAll_armory : ∃ b, ofOptions armory .default swordsman = .ok b ∧
    (Change.equip 5 none).perform b = .error (.invalidData (.conflict "狮鹫之坚韧")) b ∧
    (∀ e b', (Change.equip 5 none).perform b = .error e b' → b' = b) ∧
    (b.runAll [.equip 5 none, .setWeapon .melee "剑" none none, .equip 5 none]).WellFormed ∧
    (b.runAll [.equip 5 none, .setWeapon .melee "剑" none none, .equip 5 none]).mods.melee.map
      Mod.id = [5] := by
  have h : ofOptions armory .default swordsman = .ok _ := rfl
  exact ⟨_, h, rfl, (wellFormed_runAll h []).2 _, (wellFormed_runAll h _).1, rfl⟩

end Build

end Loadout
