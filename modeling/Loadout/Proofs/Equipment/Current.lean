import Loadout.Equipment.Leveled
import Loadout.Proofs.Number.Exact
import Loadout.Proofs.Steps

/-!
# Numbers that are never out of date

However an entity is made and whatever is set about it afterwards, its parameters are in their ranges and the
numbers kept beside them are those that the parameters give. So what an entity went through does not show: two
of one record with the same parameters are the same.

All entities share one procedure that sets a level. It is enough that what it stores is all that it changes,
and that the range and the numbers depend on the rest (`LawfulLeveled`): then each level that is set makes
up for whatever was there before, and of many levels the last one counts. A weapon has two more parameters
and skills with levels of their own; there every change gives a weapon as `Weapon.make` puts it together.

* `current_setLevel`, `setLevel_setLevel`: one level and two levels;
* `Reached.current`, `Reached.exists_setLevel`: any number of changes;
* `Character.construct_eq` and the like, `Weapon.Reached.adjust_eq`: what is set in place is what the functions
  on whole entities compute;
* `entities_neverStale`: all five kinds of entities.
-/

namespace Loadout

namespace Leveled

variable {E S A P : Type} [Leveled E S]

/-- Storing a level with its numbers changes nothing else, and nothing else is needed for the range of the
levels and for the numbers. -/
class LawfulLeveled (E : Type) {S : outParam Type} [Leveled E S] : Prop where
  least_le_greatest (e : E) : least e ≤ greatest e
  level_store (e : E) (n : Nat) (s : S) : level (store e n s) = n := by intros; rfl
  snapshot_store (e : E) (n : Nat) (s : S) : snapshot (store e n s) = s := by intros; rfl
  store_store (e : E) (m n : Nat) (s t : S) : store (store e m s) n t = store e n t := by intros; rfl
  least_store (e : E) (n : Nat) (s : S) : least (store e n s) = least e := by intros; rfl
  greatest_store (e : E) (n : Nat) (s : S) : greatest (store e n s) = greatest e := by intros; rfl
  recompute_store (e : E) (n : Nat) (s : S) : recompute (store e n s) = recompute e := by intros; rfl

/-- The level is in its range and the snapshot is that of the level. -/
structure Current (e : E) : Prop where
  least_le : least e ≤ level e
  le_greatest : level e ≤ greatest e
  snapshot_eq : snapshot e = recompute e (level e)

/-! ## One level after another -/

section Lawful

open LawfulLeveled

variable [LawfulLeveled E]

theorem level_setLevel (e : E) (n : Nat) :
    level (setLevel e n) = Level.clamp (least e) (greatest e) n :=
  level_store ..

theorem current_setLevel (e : E) (n : Nat) : Current (setLevel e n) := by
  obtain ⟨hLeast, hGreatest⟩ := Level.clamp_mem (least_le_greatest e) n
  refine ⟨?_, ?_, ?_⟩
  · rw [level_setLevel, setLevel, least_store]
    exact hLeast
  · rw [level_setLevel, setLevel, greatest_store]
    exact hGreatest
  · rw [level_setLevel, setLevel, snapshot_store, recompute_store]

/-- Of two levels the later one counts. -/
theorem setLevel_setLevel (e : E) (m n : Nat) : setLevel (setLevel e m) n = setLevel e n := by
  simp only [setLevel, least_store, greatest_store, recompute_store, store_store]

/-- The level that comes out gives the same as the one that was asked for. -/
theorem setLevel_level (e : E) (n : Nat) : setLevel e (level (setLevel e n)) = setLevel e n := by
  rw [level_setLevel]
  simp only [setLevel, Level.clamp_clamp (least_le_greatest e)]

end Lawful

/-! ## Any number of changes -/

/-- What some entities become by changes, one after another. -/
inductive Reached (new : E → Prop) (change : E → A → E) : E → Prop
  | new {e : E} (h : new e) : Reached new change e
  | change {e : E} (h : Reached new change e) (a : A) : Reached new change (change e a)

theorem Reached.exists_new {new : E → Prop} {change : E → A → E} {e : E} (h : Reached new change e) :
    ∃ e₀, new e₀ := by
  induction h with
  | new h => exact ⟨_, h⟩
  | change _ _ ih => exact ih

/-- All of some entities are current, and two of them with the same parameters are the same. -/
structure NeverStale (reached : E → Prop) (parameters : E → P) : Prop where
  current : ∀ e, reached e → Current e
  eq_of_parameters : ∀ e e', reached e → reached e' → parameters e = parameters e' → e = e'

variable {new : E → Prop} {e₀ e : E}

theorem Reached.current {change : E → A → E} (hNew : ∀ e, new e → Current e)
    (hChange : ∀ e a, Current (change e a)) (h : Reached new change e) : Current e := by
  cases h with
  | new h => exact hNew e h
  | change _ a => exact hChange _ a

variable [LawfulLeveled E]

/-- Where the new ones differ in the level alone, any one of them becomes what is reached by one level. -/
theorem Reached.exists_setLevel (hNew : ∀ e e', new e → new e' → ∃ n, setLevel e n = e')
    (h₀ : new e₀) (h : Reached new setLevel e) : ∃ n, setLevel e₀ n = e := by
  induction h with
  | new h => exact hNew _ _ h₀ h
  | change _ n ih =>
    obtain ⟨m, rfl⟩ := ih
    exact ⟨n, (setLevel_setLevel e₀ m n).symm⟩

theorem Reached.neverStale (hNew : ∀ e e', new e → new e' → ∃ n, setLevel e n = e') :
    NeverStale (Reached new setLevel) level where
  current e h := by
    refine h.current (fun e h => ?_) current_setLevel
    obtain ⟨n, hSame⟩ := hNew e e h h
    exact hSame ▸ current_setLevel e n
  eq_of_parameters e e' h h' hLevel := by
    obtain ⟨e₀, h₀⟩ := h.exists_new
    obtain ⟨n, rfl⟩ := h.exists_setLevel hNew h₀
    obtain ⟨n', rfl⟩ := h'.exists_setLevel hNew h₀
    rw [← setLevel_level e₀ n, hLevel, setLevel_level]

end Leveled

open Leveled

variable {K : Type} [Number K]

/-! ## Entities with a level -/

theorem Level.clamp_zero (high n : Nat) : Level.clamp 0 high n = min n high := by
  unfold clamp
  rw [if_neg (Nat.not_lt_zero n)]
  split <;> omega

namespace Character

instance : LawfulLeveled (Character K) where
  least_le_greatest _ := Level.least_le_greatest

theorem setLevel_eq (c : Character K) (n : Nat) : Leveled.setLevel c n = c.setLevel n := rfl

theorem construct_eq (r : CharacterRecord K) (level : Option Nat) :
    construct r level = ofRecord r level := rfl

/-- The characters of a record. -/
def Reached (r : CharacterRecord K) : Character K → Prop :=
  Leveled.Reached (fun c => ∃ level, construct r level = c) Leveled.setLevel

theorem neverStale (r : CharacterRecord K) : NeverStale (Reached r) level := by
  refine Reached.neverStale ?_
  rintro _ _ ⟨level, rfl⟩ ⟨level', rfl⟩
  exact ⟨level'.getD Level.greatest, setLevel_setLevel ..⟩

end Character

namespace Skill

theorem leastLevel_le_greatestLevel : leastLevel ≤ greatestLevel := by decide

instance : LawfulLeveled (Skill K) where
  least_le_greatest _ := leastLevel_le_greatestLevel

theorem setLevel_eq (s : Skill K) (n : Nat) : Leveled.setLevel s n = s.setLevel n := rfl

theorem construct_eq (r : SkillRecord K) (level : Option Nat) (weapon : Option String) :
    construct r level weapon = ofRecord r level weapon := rfl

/-- The skills of a record that belong to a weapon, or to none. -/
def Reached (r : SkillRecord K) (weapon : Option String) : Skill K → Prop :=
  Leveled.Reached (fun s => ∃ level, construct r level weapon = s) Leveled.setLevel

theorem neverStale (r : SkillRecord K) (weapon : Option String) : NeverStale (Reached r weapon) level := by
  refine Reached.neverStale ?_
  rintro _ _ ⟨level, rfl⟩ ⟨level', rfl⟩
  exact ⟨level'.getD defaultLevel, setLevel_setLevel ..⟩

end Skill

namespace Mod

instance : LawfulLeveled (Mod K) where
  least_le_greatest _ := Nat.zero_le _

theorem setLevel_eq (m : Mod K) (n : Nat) : Leveled.setLevel m n = m.setRank n := by
  rw [setRank, make, ← Level.clamp_zero]
  rfl

theorem construct_eq (r : ModRecord K) (effect : Option (BuffRecord K)) (rank : Option Nat) :
    construct r effect rank = ofRecord r effect rank := by
  refine bind_congr fun conditions => congrArg pure ?_
  exact setLevel_eq _ _

/-- The mods of a record, with the effect of their name. -/
def Reached (r : ModRecord K) (effect : Option (BuffRecord K)) : Mod K → Prop :=
  Leveled.Reached (fun m => ∃ rank, construct r effect rank = .ok m) Leveled.setLevel

theorem neverStale (r : ModRecord K) (effect : Option (BuffRecord K)) : NeverStale (Reached r effect) rank := by
  refine Reached.neverStale ?_
  rintro m m' ⟨rank, h⟩ ⟨rank', h'⟩
  obtain ⟨conditions, hConditions, rfl⟩ := bind_pure_eq_ok_iff.mp h
  obtain ⟨conditions', hConditions', rfl⟩ := bind_pure_eq_ok_iff.mp h'
  cases hConditions.symm.trans hConditions'
  exact ⟨rank'.getD r.quality.maxRank, setLevel_setLevel ..⟩

end Mod

namespace Buff

instance : LawfulLeveled (Buff K) where
  least_le_greatest _ := Nat.le_max_right _ _

theorem setLevel_eq (b : Buff K) (n : Nat) : Leveled.setLevel b n = b.setLevel n := rfl

theorem construct_eq (r : BuffRecord K) (level : Option Nat) :
    construct r level = ofRecord r level := rfl

/-- The buffs of a record. -/
def Reached (r : BuffRecord K) : Buff K → Prop :=
  Leveled.Reached (fun b => ∃ level, construct r level = .ok b) Leveled.setLevel

theorem neverStale (r : BuffRecord K) : NeverStale (Reached r) level := by
  refine Reached.neverStale ?_
  rintro b b' ⟨level, h⟩ ⟨level', h'⟩
  obtain ⟨script, hScript, rfl⟩ := bind_pure_eq_ok_iff.mp h
  obtain ⟨script', hScript', rfl⟩ := bind_pure_eq_ok_iff.mp h'
  cases hScript.symm.trans hScript'
  exact ⟨level'.getD r.usualLevel, setLevel_setLevel ..⟩

end Buff

/-! ## Weapons -/

namespace Weapon

instance : LawfulLeveled (Weapon K) where
  least_le_greatest _ := Level.least_le_greatest

variable {r : WeaponRecord K} {effect : Option (BuffRecord K)} {table : Option (BaseMultiplier K)}

theorem construct_eq (r : WeaponRecord K) (effect : Option (BuffRecord K)) (table : Option (BaseMultiplier K))
    (refine level : Option Nat) :
    construct r effect table refine level = ofRecord r effect table refine level := rfl

/-- A weapon that is put together again at its own parameters is the same. -/
theorem make_parameters (level refine skillLevel : Nat) :
    let w := make r effect table level refine skillLevel
    make r effect table w.level w.refine w.skillLevel = w := by
  simp only [make, Skill.clampLevel, Nat.min_assoc, Nat.min_self, Level.clamp_clamp Level.least_le_greatest,
    Level.clamp_clamp Skill.leastLevel_le_greatestLevel]

/-- The level may be put into its range before. -/
theorem make_clamp (level refine skillLevel : Nat) :
    make r effect table (Level.clamp Level.least Level.greatest level) refine skillLevel =
      make r effect table level refine skillLevel := by
  simp only [make, Level.clamp_clamp Level.least_le_greatest]

theorem adjust_level_make (level refine skillLevel n : Nat) :
    (make r effect table level refine skillLevel).adjust (.level n) = make r effect table n refine skillLevel :=
  rfl

theorem adjust_refine_make (level refine skillLevel n : Nat) :
    (make r effect table level refine skillLevel).adjust (.refine n) =
      make r effect table level n skillLevel := make_clamp level n skillLevel

theorem adjust_skillLevel_make (level refine skillLevel n : Nat) :
    (make r effect table level refine skillLevel).adjust (.skillLevel n) =
      make r effect table level refine n := by
  rw [← make_clamp level refine n]
  unfold adjust
  simp only [make, List.map_map]
  rfl

/-- The weapons of a record, with the effect of their name and the table of multipliers. -/
def Reached (r : WeaponRecord K) (effect : Option (BuffRecord K)) (table : Option (BaseMultiplier K)) :
    Weapon K → Prop :=
  Leveled.Reached (fun w => ∃ refine level, construct r effect table refine level = w) adjust

def parameters (w : Weapon K) : Nat × Nat × Nat := (w.level, w.refine, w.skillLevel)

/-- The parameters of a weapon besides its level are in their ranges, and its skills are at its rank. -/
structure Consistent (w : Weapon K) : Prop where
  refine_le : w.refine ≤ 5
  skillLevel_pos : 1 ≤ w.skillLevel
  skillLevel_le : w.skillLevel ≤ 12
  skills_level : ∀ s ∈ w.skills, s.level = w.skillLevel
  skills_current : ∀ s ∈ w.skills, Current s

theorem consistent_make (level refine skillLevel : Nat) :
    (make r effect table level refine skillLevel).Consistent := by
  obtain ⟨hLeast, hGreatest⟩ := Level.clamp_mem Skill.leastLevel_le_greatestLevel skillLevel
  have hSkill : ∀ s ∈ (make r effect table level refine skillLevel).skills,
      ∃ t : SkillRecord K, Skill.atLevel t (some r.name) (Skill.clampLevel skillLevel) = s := fun s hs =>
    (List.mem_map.mp hs).imp fun _ h => h.2
  refine ⟨Nat.min_le_right _ _, hLeast, hGreatest, fun s hs => ?_, fun s hs => ?_⟩
  · obtain ⟨t, rfl⟩ := hSkill s hs
    exact Level.clamp_clamp Skill.leastLevel_le_greatestLevel skillLevel
  · obtain ⟨t, rfl⟩ := hSkill s hs
    exact current_setLevel (Skill.construct t none (some r.name)) _

variable {w : Weapon K}

/-- Every change gives a weapon as it is put together from some parameters. -/
theorem Reached.exists_make (h : Reached r effect table w) :
    ∃ level refine skillLevel, make r effect table level refine skillLevel = w := by
  induction h with
  | new h =>
    obtain ⟨refine, level, rfl⟩ := h
    exact ⟨level.getD Level.greatest, refine.getD greatestRefine, Skill.defaultLevel, rfl⟩
  | change _ a ih =>
    obtain ⟨level, refine, skillLevel, rfl⟩ := ih
    cases a with
    | level n => exact ⟨n, refine, skillLevel, rfl⟩
    | refine n => exact ⟨level, n, skillLevel, (adjust_refine_make ..).symm⟩
    | skillLevel n => exact ⟨level, refine, n, (adjust_skillLevel_make ..).symm⟩

theorem Reached.eq_make (h : Reached r effect table w) :
    make r effect table w.level w.refine w.skillLevel = w := by
  obtain ⟨level, refine, skillLevel, rfl⟩ := h.exists_make
  exact make_parameters level refine skillLevel

theorem Reached.adjust_eq (h : Reached r effect table w) (a : Adjustment) :
    w.adjust a = match a with
      | .level n => w.setLevel n
      | .refine n => w.setRefine n
      | .skillLevel n => w.setSkillLevel n := by
  obtain ⟨level, refine, skillLevel, rfl⟩ := h.exists_make
  conv_lhs => rw [← make_parameters level refine skillLevel]
  cases a with
  | level n => exact adjust_level_make ..
  | refine n => exact adjust_refine_make ..
  | skillLevel n => exact adjust_skillLevel_make ..

theorem neverStale (r : WeaponRecord K) (effect : Option (BuffRecord K)) (table : Option (BaseMultiplier K)) :
    NeverStale (Reached r effect table) parameters where
  current w h := by
    refine h.current ?_ fun w a => ?_
    · rintro _ ⟨refine, level, rfl⟩
      exact current_setLevel ..
    · cases a <;> exact current_setLevel ..
  eq_of_parameters w w' h h' hSame := by
    simp only [parameters, Prod.mk.injEq] at hSame
    obtain ⟨hLevel, hRefine, hSkillLevel⟩ := hSame
    rw [← Reached.eq_make h, ← Reached.eq_make h', hLevel, hRefine, hSkillLevel]

end Weapon

/-! ## All of them -/

/-- Whatever is made of a record and whatever is set about it, its parameters are in their ranges and its
numbers are those of its parameters, which tell it from everything else that is made of the record. -/
theorem entities_neverStale :
    (∀ r : CharacterRecord K, NeverStale (Character.Reached r) Character.level) ∧
    (∀ (r : SkillRecord K) (weapon : Option String), NeverStale (Skill.Reached r weapon) Skill.level) ∧
    (∀ (r : ModRecord K) (effect : Option (BuffRecord K)), NeverStale (Mod.Reached r effect) Mod.rank) ∧
    (∀ r : BuffRecord K, NeverStale (Buff.Reached r) Buff.level) ∧
    (∀ (r : WeaponRecord K) (effect : Option (BuffRecord K)) (table : Option (BaseMultiplier K)),
      NeverStale (Weapon.Reached r effect table) Weapon.parameters ∧
        ∀ w, Weapon.Reached r effect table w → w.Consistent) := by
  refine ⟨Character.neverStale, Skill.neverStale, Mod.neverStale, Buff.neverStale, fun r effect table =>
    ⟨Weapon.neverStale r effect table, fun w h => ?_⟩⟩
  obtain ⟨level, refine, skillLevel, rfl⟩ := h.exists_make
  exact Weapon.consistent_make level refine skillLevel

open scoped Exact

/-- A weapon with a skill. -/
def estoc : WeaponRecord ℚ where
  id := 10
  name := "刺剑"
  kind := .melee
  category := "单手剑"
  damageType := "贯穿"
  attack := 400
  critRate := 1 / 5
  critDamage := 2
  triggerRate := 1 / 10
  multiplier := 1
  fireRate := none
  magazine := none
  reload := none
  bonuses := .empty
  skills := [⟨"突刺", "", [⟨"突刺伤害", .perLevel [1, 2, 3], none, [], none⟩]⟩]
  baseMultiplier := none

/-- Two ways to the lowest rank and the highest refinement. -/
theorem entities_neverStale_estoc :
    let table : Option (BaseMultiplier ℚ) := some ⟨1, 19 / 10⟩
    let w := ((Weapon.construct estoc none table (some 0) none).adjust (.skillLevel 0)).adjust (.refine 9)
    let w' := (Weapon.construct estoc none table none (some 99)).adjust (.skillLevel 1)
    w = w' ∧ w.parameters = (80, 5, 1) ∧ Current w ∧ w.Consistent := by
  intro table w w'
  obtain ⟨hStale, hConsistent⟩ := entities_neverStale.2.2.2.2 estoc none table
  have h : Weapon.Reached estoc none table w := .change (.change (.new ⟨some 0, none, rfl⟩) _) _
  have h' : Weapon.Reached estoc none table w' := .change (.new ⟨none, some 99, rfl⟩) _
  exact ⟨hStale.eq_of_parameters w w' h h' rfl, rfl, hStale.current w h, hConsistent w h⟩

end Loadout
