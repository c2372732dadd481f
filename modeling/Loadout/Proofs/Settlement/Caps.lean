import Loadout.Build.Scene
import Loadout.Proofs.Build.Retold
import Loadout.Proofs.Formula.Scripts
import Loadout.Proofs.Number.DecimalPlaces
import Loadout.Proofs.Settlement.Coherence

/-!
# Where the caps hold

Two attributes and the trigger rate of a weapon have caps. The attributes are cut off once, before the scripts
of the dynamic buffs run on them, and a step of a script may lift one of them above its cap again. The trigger
rate is cut off before it is rounded to two places.

* `beforeScripts`, `scriptSteps`, `pass_eq`: a pass as steps on attributes that have been cut off;
* `get_runStep_le`, `le_or_exists_lifts`: what one step may do to a cap, and what a run of steps does;
* `triggerRate_le`: trigger rates;
* `settle_capped`: what of a build is within the caps.
-/

namespace Loadout

variable {K : Type}

/-- The cap on an attribute, if there is one. -/
def Settings.capOf? (s : Settings K) : Attribute → Option K
  | .efficiency => some s.efficiencyCap
  | .range => some s.rangeCap
  | _ => none

/-- A step of a script and the level of the buff that it belongs to. -/
structure LeveledStep (K : Type) where
  level : Nat
  step : Step K

variable [Number K]

namespace LeveledStep

def run (s : AttributeSet K) (x : LeveledStep K) : AttributeSet K := Script.runStep x.level s x.step

/-- The step writes an attribute, other than to cut it off, and leaves it outside a cap. -/
structure Lifts (x : LeveledStep K) (a : Attribute) (cap : K) (s : AttributeSet K) : Prop where
  target : x.step.target = a
  op : x.step.op ≠ .clampMax
  not_le : ¬ (x.run s).get a ≤ cap

end LeveledStep

/-- The steps of a buff. -/
def Buff.leveledSteps (b : Buff K) : List (LeveledStep K) :=
  (b.script.elim [] (·.steps)).map fun step => ⟨b.level, step⟩

namespace Sources

/-- The attributes that the scripts of the dynamic buffs start from. -/
def beforeScripts (s : Sources K) (flags : List Bool) : AttributeSet K :=
  let sources := s.active flags
  { s.finalize (totals (sources.flatMap characterGrants)) with extra := extras sources }

/-- The steps of the dynamic buffs in their order. -/
def scriptSteps (s : Sources K) : List (LeveledStep K) := s.dynamicBuffs.flatMap Buff.leveledSteps

theorem runBuff_eq (s : AttributeSet K) (b : Buff K) :
    runBuff s b = b.leveledSteps.foldl LeveledStep.run s := by
  rw [Buff.leveledSteps, List.foldl_map, runBuff]
  cases b.script <;> rfl

theorem pass_eq (s : Sources K) (flags : List Bool) :
    s.pass flags = s.scriptSteps.foldl LeveledStep.run (s.beforeScripts flags) := by
  have hPass : s.pass flags = s.dynamicBuffs.foldl runBuff (s.beforeScripts flags) := rfl
  rw [hPass, scriptSteps, List.foldl_flatMap]
  exact congrArg (s.dynamicBuffs.foldl · _) (funext₂ runBuff_eq)

end Sources

open Number Number.Binary

variable {a : Attribute} {cap : Float}

/-! ## Attributes -/

/-- The scripts start within the caps. -/
theorem Sources.beforeScripts_le {s : Sources Float} (hCap : s.settings.capOf? a = some cap)
    (hNumber : Proper cap) (flags : List Bool) : (s.beforeScripts flags).get a ≤ cap := by
  have hGet : (s.beforeScripts flags).get a =
      (s.finalize (totals ((s.active flags).flatMap characterGrants))).get a := rfl
  rw [hGet, finalize, AttributeSet.get_ofFn]
  cases a <;> cases hCap <;> exact least_le hNumber

/-- A step keeps an attribute within a cap if it writes another one or only cuts it off. -/
theorem LeveledStep.get_run_le {s : AttributeSet Float} (h : s.get a ≤ cap) (x : LeveledStep Float)
    (hStep : x.step.target = a → x.step.op = .clampMax) : (x.run s).get a ≤ cap := by
  by_cases hTarget : x.step.target = a
  · rw [run, Script.runStep, AttributeSet.get_set, if_pos hTarget, hStep hTarget, hTarget]
    exact least_le_of_le h
  · rw [run, Script.get_runStep_of_ne hTarget]
    exact h

/-- Steps lead out of a cap only if the last of them that writes the attribute, other than to cut it off, lifts it
above the cap. -/
theorem LeveledStep.le_or_exists_lifts {s : AttributeSet Float} (h : s.get a ≤ cap)
    (steps : List (LeveledStep Float)) : (steps.foldl run s).get a ≤ cap ∨
      ∃ before x after, steps = before ++ x :: after ∧ x.Lifts a cap (before.foldl run s) ∧
        ∀ y ∈ after, y.step.target = a → y.step.op = .clampMax := by
  induction steps using List.reverseRecOn with
  | nil => exact .inl h
  | append_singleton steps x ih =>
    rw [List.foldl_append, List.foldl_cons, List.foldl_nil]
    by_cases hStep : x.step.target = a → x.step.op = .clampMax
    · rcases ih with hLe | ⟨before, y, after, rfl, hLifts, hAfter⟩
      · exact .inl (x.get_run_le hLe hStep)
      · refine .inr ⟨before, y, after ++ [x], by simp, hLifts, ?_⟩
        exact List.forall_mem_append.mpr ⟨hAfter, List.forall_mem_singleton.mpr hStep⟩
    · obtain ⟨hTarget, hOp⟩ := Classical.not_imp.mp hStep
      by_cases hLe : (x.run (steps.foldl run s)).get a ≤ cap
      · exact .inl hLe
      · exact .inr ⟨steps, x, [], rfl, ⟨hTarget, hOp, hLe⟩, List.forall_mem_nil _⟩

/-! ## Trigger rates -/

theorem Sources.triggerRate_le {s : Sources Float} (hNumber : Proper s.settings.triggerCap)
    (flags : List Bool) (w : Weapon Float) :
    (s.weaponStats flags w).triggerRate ≤ roundTo s.settings.triggerCap 2 :=
  roundTo_two_le (least_le hNumber)

/-! ## Builds -/

namespace Build

/-- What of a build is within the caps, as far as these are numbers. The attributes that the scripts of the dynamic
buffs start from are; so are the settled ones, unless the last step of the scripts that writes the attribute, other
than to cut it off, lifts it above its cap. A trigger rate is within the rounded cap, hence within the cap
if rounding does not raise that. -/
theorem settle_capped (b : Build Float) :
    (∀ a cap, b.settings.capOf? a = some cap → (cap == cap) = true →
      (b.sources.beforeScripts b.settle.flags).get a ≤ cap ∧
        (b.settle.attributes.get a ≤ cap ∨
          ∃ before x after, b.sources.scriptSteps = before ++ x :: after ∧
            x.Lifts a cap (before.foldl LeveledStep.run (b.sources.beforeScripts b.settle.flags)) ∧
            ∀ y ∈ after, y.step.target = a → y.step.op = .clampMax)) ∧
      ((b.settings.triggerCap == b.settings.triggerCap) = true → ∀ w,
        (b.weaponStats w).triggerRate ≤ roundTo b.settings.triggerCap 2 ∧
          (roundTo b.settings.triggerCap 2 ≤ b.settings.triggerCap →
            (b.weaponStats w).triggerRate ≤ b.settings.triggerCap)) := by
  refine ⟨fun a cap hCap hNumber => ?_, fun hNumber w => ?_⟩
  · have hStart := b.sources.beforeScripts_le hCap (beq_self_iff.mp hNumber) b.settle.flags
    refine ⟨hStart, ?_⟩
    have hSettle : b.settle.attributes = b.sources.pass b.settle.flags := b.sources.attributes_settle
    rw [hSettle, Sources.pass_eq]
    exact LeveledStep.le_or_exists_lifts hStart _
  · have hRounded := Sources.triggerRate_le (s := b.sources) (beq_self_iff.mp hNumber) b.settle.flags w
    exact ⟨hRounded, fun hCap => le_of_le_of_le hRounded hCap⟩

/-! ## A forge -/

/-- A buff of one step on efficiency. -/
def tuning (name : String) (op : StepOp) (formula : String) : BuffRecord Float where
  name := name
  description := ""
  bonuses := .empty
  a := none
  b := none
  defaultLevel := none
  minLevel := none
  maxLevel := none
  script := some [⟨.efficiency, op, formula⟩]

/-- A sword that always sets off a trigger, a buff that lifts efficiency and one that cuts it off. -/
def forge : Database Float :=
  { sanctum with
    weapons := Database.index WeaponRecord.name [{ blade 2 "刀" "太刀" with triggerRate := 1.0 }, spiritBlade]
    buffs := Database.index BuffRecord.name [tuning "涌动" .add "1", tuning "节制" .clampMax "1.5"] }

def atForge (name : String) : BuildOptions Float :=
  { BuildOptions.default with
    character := "术士"
    melee := "刀"
    ranged := "刀"
    dynamicBuffs := [⟨name, none⟩] }

set_option maxRecDepth 4096 in
/-- What only cuts off keeps efficiency within its cap. -/
theorem settle_capped_forge : ∃ b, ofOptions forge .default (atForge "节制") = .ok b ∧
    b.settle.attributes.get .efficiency ≤ 1.75 ∧ (b.weaponStats b.melee).triggerRate ≤ 1.0 := by
  have hCapped (b : Build Float) (hSettings : b.settings = .default)
      (hSteps : ∀ x ∈ b.sources.scriptSteps, x.step.op = .clampMax) :
      b.settle.attributes.get .efficiency ≤ 1.75 ∧ (b.weaponStats b.melee).triggerRate ≤ 1.0 := by
    obtain ⟨hAttributes, hTrigger⟩ := settle_capped b
    rw [hSettings] at hAttributes hTrigger
    obtain ⟨-, hSettle⟩ := hAttributes .efficiency 1.75 rfl (by decide)
    refine ⟨hSettle.resolve_right ?_, ?_⟩
    · rintro ⟨before, x, after, hSplit, hLifts, -⟩
      exact hLifts.op (hSteps x (hSplit ▸ List.mem_append_right before List.mem_cons_self))
    · exact (hTrigger (by decide) b.melee).2 (by decide +kernel)
  exact ⟨_, by with_unfolding_all rfl, hCapped _ rfl (by decide +kernel)⟩

set_option maxRecDepth 4096 in
/-- A step lifts efficiency above its cap, a cap of three places is rounded up, and what is no number caps
nothing. -/
theorem settle_exceeds_caps :
    (∃ b, ofOptions forge .default (atForge "涌动") = .ok b ∧
      ¬ b.settle.attributes.get .efficiency ≤ b.settings.efficiencyCap) ∧
    (∃ b, ofOptions forge { Settings.default with triggerCap := 0.996 } (atForge "节制") = .ok b ∧
      ¬ (b.weaponStats b.melee).triggerRate ≤ b.settings.triggerCap) ∧
    ∃ b, ofOptions forge { Settings.default with rangeCap := 0.0 / 0.0 } (atForge "节制") = .ok b ∧
      ¬ b.settle.attributes.get .range ≤ b.settings.rangeCap :=
  ⟨⟨_, by with_unfolding_all rfl, by decide +kernel⟩, ⟨_, by with_unfolding_all rfl, by decide +kernel⟩,
    _, by with_unfolding_all rfl, by decide +kernel⟩

end Build

end Loadout
