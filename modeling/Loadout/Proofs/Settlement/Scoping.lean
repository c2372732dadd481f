import Loadout.Aggregate.Sources
import Loadout.Number.Binary

/-!
# What the mods of a slot reach

A mod of a weapon category is a source that is scoped to the slot of a kind of weapon. Each of its
entries goes one of four ways: a stat scoped to a kind goes to the weapons that accept that kind, an
unscoped stat and what the weapon owns of the attributes stay in the slot, and any other attribute goes
to the character, as extras do. Two functions sort the entries, and neither of them looks at an entry
that is meant for the other one.

So a change to one such source is seen by no weapon of another kind and not by the character, unless an
entry that goes there is changed. In both cases the lists of contributions are the same, not only their
totals, and nothing is assumed of the numbers.

* `SlotEdit`: two loadouts that differ in one source of a slot;
* `SlotEdit.flatMap_active`: what is read off the active sources is the same if the source gives the same;
* `SlotEdit.weaponStats_eq`, `SlotEdit.pass_eq`: who does not see the change;
* `slot_noninterference`: both, with the rule for kinds of weapons.
-/

namespace Loadout

/-- Two tables of bonuses have different amounts under a key, or only one of them has an amount. -/
def Bonuses.DifferAt {K : Type} (b b' : Bonuses K) (k : StatKey) : Prop :=
  b.entries.find? k ≠ b'.entries.find? k

/-- An amount that is added makes a difference under its own key only. -/
theorem Bonuses.eq_or_differAt_of_add {K : Type} [Number K] {b b' : Bonuses K} {k l : StatKey} {x : K}
    (h : b.DifferAt (b'.add k x) l) : l = k ∨ b.DifferAt b' l := by
  by_cases hKey : k = l
  · exact .inl hKey.symm
  · rw [DifferAt, add, addTo, Table.find?_alter_of_ne _ hKey] at h
    exact .inr h

theorem WeaponKind.accepts_iff (kind scope : WeaponKind) :
    kind.accepts scope = true ↔ scope = kind ∨ kind.base = some scope := by
  rw [accepts, Bool.or_eq_true, beq_iff_eq, beq_iff_eq, eq_comm]

/-- A kind that has a base is not accepted by its base. -/
theorem WeaponKind.accepts_of_base {kind base : WeaponKind} (h : kind.base = some base) :
    base.accepts kind = false := by
  cases kind <;> cases h <;> rfl

namespace Sources

variable {K : Type}

/-! ## One source of a slot -/

/-- The source of a slot that grants some bonuses, or no source. -/
def slotSource (kind : WeaponKind) (b : Option (Bonuses K)) : List (Source K) :=
  b.toList.map fun b => ⟨.weapon kind, b⟩

/-- A conditional of a slot that grants some bonuses, or no conditional. -/
def slotConditional (kind : WeaponKind) (c : Conditional K) (b : Option (Bonuses K)) :
    List (Conditional K) :=
  b.toList.map fun b => { c with scope := .weapon kind, bonuses := b }

/-- Two loadouts, each with the flags of its conditionals, that differ in one source of the slot of a
kind: in what a mod grants at all times, or in what it grants under its conditions. It grants `old` in
the first loadout and `new` in the second. It may be missing from either of them, together with its flag
if it has one. -/
inductive SlotEdit (kind : WeaponKind) (old new : Option (Bonuses K)) :
    Sources K → List Bool → Sources K → List Bool → Prop
  | always (s : Sources K) (before after : List (Source K)) (flags : List Bool) :
    SlotEdit kind old new
      { s with sources := before ++ slotSource kind old ++ after } flags
      { s with sources := before ++ slotSource kind new ++ after } flags
  | conditional (s : Sources K) (c : Conditional K) (flag : Bool) (before after : List (Conditional K))
    (flagsBefore flagsAfter : List Bool) (h : before.length = flagsBefore.length) :
    SlotEdit kind old new
      { s with conditionals := before ++ slotConditional kind c old ++ after }
      (flagsBefore ++ (old.toList.map fun _ => flag) ++ flagsAfter)
      { s with conditionals := before ++ slotConditional kind c new ++ after }
      (flagsBefore ++ (new.toList.map fun _ => flag) ++ flagsAfter)

/-- The sources of flagged conditionals. -/
def flagged (cs : List (Conditional K)) (flags : List Bool) : List (Source K) :=
  ((cs.zip flags).filter (·.2)).map fun c => ⟨c.1.scope, c.1.bonuses⟩

theorem flagged_append {cs ds : List (Conditional K)} {flags flags' : List Bool}
    (h : cs.length = flags.length) :
    flagged (cs ++ ds) (flags ++ flags') = flagged cs flags ++ flagged ds flags' := by
  rw [flagged, List.zip_append h, List.filter_append, List.map_append]
  rfl

/-- A conditional of a slot is a source of the slot while its flag is set. -/
theorem flagged_slotConditional (kind : WeaponKind) (c : Conditional K) (b : Option (Bonuses K))
    (flag : Bool) :
    flagged (slotConditional kind c b) (b.toList.map fun _ => flag) =
      if flag then slotSource kind b else [] := by
  cases b <;> cases flag <;> rfl

variable {kind : WeaponKind} {old new : Option (Bonuses K)} {s s' : Sources K}
  {flags flags' : List Bool}

/-- A source that is missing gives what one without bonuses gives. -/
theorem flatMap_slotSource {β : Type} {f : Source K → List β} (hEmpty : f ⟨.weapon kind, .empty⟩ = [])
    (b : Option (Bonuses K)) : (slotSource kind b).flatMap f = f ⟨.weapon kind, b.getD .empty⟩ := by
  cases b with
  | none => exact hEmpty.symm
  | some b => exact List.append_nil _

namespace SlotEdit

theorem dynamicBuffs_eq (h : SlotEdit kind old new s flags s' flags') :
    s'.dynamicBuffs = s.dynamicBuffs := by
  cases h <;> rfl

theorem finalize_eq [Number K] (h : SlotEdit kind old new s flags s' flags') :
    s'.finalize = s.finalize := by
  cases h <;> rfl

theorem finalizeWeapon_eq [Number K] (h : SlotEdit kind old new s flags s' flags') :
    s'.finalizeWeapon = s.finalizeWeapon := by
  cases h <;> rfl

/-- What is read off the active sources, one after another, does not change if nothing that is read off
the edited source does. -/
theorem flatMap_active (h : SlotEdit kind old new s flags s' flags') {β : Type}
    {f : Source K → List β} (hEmpty : f ⟨.weapon kind, .empty⟩ = [])
    (hSame : f ⟨.weapon kind, old.getD .empty⟩ = f ⟨.weapon kind, new.getD .empty⟩) :
    (s'.active flags').flatMap f = (s.active flags).flatMap f := by
  have hSource : (slotSource kind new).flatMap f = (slotSource kind old).flatMap f := by
    rw [flatMap_slotSource hEmpty, flatMap_slotSource hEmpty, hSame]
  cases h with
  | always s before after flags =>
    simp only [active, List.flatMap_append, hSource]
  | conditional s c flag before after flagsBefore flagsAfter hLength =>
    have hFlagged (b : Option (Bonuses K)) :
        flagged (before ++ slotConditional kind c b ++ after)
            (flagsBefore ++ (b.toList.map fun _ => flag) ++ flagsAfter) =
          flagged before flagsBefore ++ (if flag then slotSource kind b else []) ++
            flagged after flagsAfter := by
      rw [flagged_append (by simp [slotConditional, hLength]), flagged_append hLength,
        flagged_slotConditional]
    have hActive (b : Option (Bonuses K)) :
        active { s with conditionals := before ++ slotConditional kind c b ++ after }
            (flagsBefore ++ (b.toList.map fun _ => flag) ++ flagsAfter) =
          s.sources ++ (flagged before flagsBefore ++ (if flag then slotSource kind b else []) ++
            flagged after flagsAfter) :=
      congrArg (s.sources ++ ·) (hFlagged b)
    rw [hActive, hActive]
    cases flag with
    | false => rfl
    | true => simp only [List.flatMap_append, if_true, hSource]

end SlotEdit

/-! ## Where the entries go -/

/-- A weapon of another kind takes only stats scoped to a kind that it accepts. -/
theorem weaponGrants_congr {weaponKind : WeaponKind} {b b' : Bonuses K} (hKind : weaponKind ≠ kind)
    (h : ∀ k, b.DifferAt b' k → ∀ scope stat, k = .weapon (some scope) stat →
      weaponKind.accepts scope = false) :
    weaponGrants weaponKind ⟨.weapon kind, b⟩ = weaponGrants weaponKind ⟨.weapon kind, b'⟩ := by
  have hSlot : Scope.weapon kind ≠ Scope.weapon weaponKind := fun hEq =>
    hKind (Scope.weapon.inj hEq).symm
  unfold weaponGrants
  apply Table.filterMap_entries_congr
  intro k hDiffer x
  cases k with
  | character a => cases a <;> simp [hSlot]
  | weapon scope stat =>
    cases scope with
    | none => simp [hSlot]
    | some scope => simp [h _ hDiffer scope stat rfl]

/-- The character takes no stats, and from a slot neither attack nor independent damage. -/
theorem characterGrants_congr {b b' : Bonuses K}
    (h : ∀ k, b.DifferAt b' k → (∃ scope stat, k = .weapon scope stat) ∨
      k = .character .attack ∨ k = .character .independentDamageIncrease) :
    characterGrants ⟨.weapon kind, b⟩ = characterGrants ⟨.weapon kind, b'⟩ := by
  unfold characterGrants
  apply Table.filterMap_entries_congr
  intro k hDiffer x
  rcases h k hDiffer with ⟨scope, stat, rfl⟩ | rfl | rfl
  · rfl
  · simp [weaponOwned]
  · simp [weaponOwned]

variable [Number K]

/-- Extras are collected from one source after another. -/
theorem extras_eq_foldl (sources : List (Source K)) :
    extras sources = (sources.flatMap fun s => s.bonuses.extra.entries).foldl
      (fun t e => Bonuses.addTo t e.1 e.2) .empty := by
  rw [extras, List.foldl_flatMap]

/-! ## Who does not see a change -/

namespace SlotEdit

/-- A weapon of another kind has the same stats, unless an entry scoped to a kind that it accepts was
changed. -/
theorem weaponStats_eq (h : SlotEdit kind old new s flags s' flags') (w : Weapon K)
    (hKind : w.kind ≠ kind)
    (hKeys : ∀ k, (old.getD .empty).DifferAt (new.getD .empty) k →
      ∀ scope stat, k = .weapon (some scope) stat → w.kind.accepts scope = false) :
    s'.weaponStats flags' w = s.weaponStats flags w := by
  have hGrants := h.flatMap_active (f := weaponGrants w.kind) rfl (weaponGrants_congr hKind hKeys)
  rw [weaponStats, weaponStats, hGrants, h.finalizeWeapon_eq]

/-- The attributes are the same, unless an attribute that the weapon does not own or an extra was
changed. -/
theorem pass_eq (h : SlotEdit kind old new s flags s' flags')
    (hKeys : ∀ k, (old.getD .empty).DifferAt (new.getD .empty) k →
      (∃ scope stat, k = .weapon scope stat) ∨
        k = .character .attack ∨ k = .character .independentDamageIncrease)
    (hExtra : (old.getD .empty).extra = (new.getD .empty).extra) :
    s'.pass flags' = s.pass flags := by
  have hGrants := h.flatMap_active (f := characterGrants) rfl (characterGrants_congr hKeys)
  have hExtras : extras (s'.active flags') = extras (s.active flags) := by
    rw [extras_eq_foldl, extras_eq_foldl]
    rw [h.flatMap_active rfl (congrArg Table.entries hExtra)]
  unfold pass
  dsimp only
  rw [hGrants, hExtras, h.finalize_eq, h.dynamicBuffs_eq]

end SlotEdit

/-- Whatever one source of a slot grants instead of what it granted, a weapon of another kind sees of it
only the stats scoped to a kind that it accepts, and the character sees only extras and the attributes
that do not belong to the weapon. A kind accepts itself and its base, and a base does not accept what it
is the base of. -/
theorem slot_noninterference (h : SlotEdit kind old new s flags s' flags') :
    (∀ w : Weapon K, w.kind ≠ kind →
      (∀ k, (old.getD .empty).DifferAt (new.getD .empty) k →
        ∀ scope stat, k = .weapon (some scope) stat → w.kind.accepts scope = false) →
      s'.weaponStats flags' w = s.weaponStats flags w) ∧
    ((∀ k, (old.getD .empty).DifferAt (new.getD .empty) k →
        (∃ scope stat, k = .weapon scope stat) ∨
          k = .character .attack ∨ k = .character .independentDamageIncrease) →
      (old.getD .empty).extra = (new.getD .empty).extra → s'.pass flags' = s.pass flags) ∧
    (∀ type scope : WeaponKind, type.accepts scope = true ↔ scope = type ∨ type.base = some scope) ∧
    (∀ type base : WeaponKind, type.base = some base → base.accepts type = false) :=
  ⟨h.weaponStats_eq, h.pass_eq, WeaponKind.accepts_iff, fun _ _ => WeaponKind.accepts_of_base⟩

/-! ## A melee mod beside a resonance weapon -/

/-- Grants what every weapon takes that counts as melee. -/
def honed : Bonuses Float := Bonuses.empty.add (.weapon (some .melee) .critRate) 0.25

/-- Grants attack and damage of critical hits to the slot besides. -/
def rehoned : Bonuses Float := (honed.add (.character .attack) 0.5).add (.weapon none .critDamage) 0.5

/-- A weapon of a kind. -/
def bladeOf (kind : WeaponKind) : Weapon Float :=
  .ofRecord {
    id := 7, name := "", kind := kind, category := "", damageType := "", attack := 100.0
    critRate := 0.5, critDamage := 2.0, triggerRate := 0.0, multiplier := 1.0, fireRate := none
    magazine := none, reload := none, bonuses := .empty, skills := [], baseMultiplier := none }
    none none none none

/-- A conditional mod of the slot for melee weapons that grants some bonuses. -/
def whetstone (b : Bonuses Float) : Conditional Float where
  label := ""
  mod := {
    record := {
      id := 8, name := "", series := "", quality := .gold, tolerance := 0
      category := .melee, polarity := none, element := none, restriction := none
      exclusive := false, bonuses := .empty, conditional := none }
    effect := none
    conditions := []
    rank := 10
    stats := ⟨.empty, .empty, 0⟩ }
  scope := .weapon .melee
  siblings := []
  bonuses := b

def armedWith (b : Bonuses Float) : Sources Float where
  character := ⟨300, 100, 100, 100, 100⟩
  sources := []
  conditionals := [whetstone b]
  dynamicBuffs := []
  resonanceGain := 0.0
  settings := .default

theorem slotEdit_armedWith :
    SlotEdit .melee (some honed) (some rehoned) (armedWith honed) [true] (armedWith rehoned) [true] :=
  .conditional (armedWith honed) (whetstone honed) true [] [] [] [] rfl

theorem differAt_honed {k : StatKey} (h : honed.DifferAt rehoned k) :
    k = .weapon none .critDamage ∨ k = .character .attack := by
  rcases Bonuses.eq_or_differAt_of_add h with hKey | h
  · exact .inl hKey
  · rcases Bonuses.eq_or_differAt_of_add h with hKey | h
    · exact .inr hKey
    · exact absurd rfl h

/-- A resonance weapon takes what the mod grants to melee weapons by name. It does not see what else
the mod grants to its slot, and neither does the character; a melee weapon does. -/
theorem rehoned_not_seen :
    SlotEdit .melee (some honed) (some rehoned) (armedWith honed) [true] (armedWith rehoned) [true] ∧
      (bladeOf .resonanceMelee).kind ≠ .melee ∧
      (armedWith rehoned).weaponStats [true] (bladeOf .resonanceMelee) =
        (armedWith honed).weaponStats [true] (bladeOf .resonanceMelee) ∧
      (armedWith rehoned).pass [true] = (armedWith honed).pass [true] ∧
      ((armedWith honed).weaponStats [true] (bladeOf .melee)).attack <
        ((armedWith rehoned).weaponStats [true] (bladeOf .melee)).attack := by
  obtain ⟨hWeapon, hCharacter, -⟩ := slot_noninterference slotEdit_armedWith
  refine ⟨slotEdit_armedWith, by decide, hWeapon _ (by decide) ?_, hCharacter ?_ rfl, by decide +kernel⟩
  · intro k hDiffer scope stat hKey
    rcases differAt_honed hDiffer with rfl | rfl <;> cases hKey
  · intro k hDiffer
    rcases differAt_honed hDiffer with rfl | rfl
    · exact .inl ⟨none, .critDamage, rfl⟩
    · exact .inr (.inl rfl)

end Sources

end Loadout
