import Loadout.Proofs.Formula.Listing
import Loadout.Proofs.Number.Exact
import Loadout.Proofs.Steps

/-!
# What a compiled script may touch

The formulas of a script are checked once, against sample values at level one, and then run at another level on
values that earlier steps have written. What is checked is which names are known, and for a script this depends on
the name alone: a name stands for the level, or for an attribute, or for nothing. So no formula of a compiled
script ever lacks an answer. A step writes its target and reads attributes, hence extras play no part and are kept.

* `isSome_resolver`, `validate_resolver`: one check stands for all values and levels;
* `Checked`, `checked_of_compile`: what is known of a compiled step;
* `runStep?`, `run?`: running a script without answers for names that are not known, which comes to the same;
* `get_run_of_not_mem`, `extra_run`, `get_run_congr`: what a run leaves alone and what it depends on, by induction
  on the steps from what one step does;
* `run_of_compile`: all this about a compiled script.
-/

namespace Loadout

open Formula

variable {K : Type} [Number K]

namespace Script

/-! ## Names -/

/-- Whether a name is known depends on no value and no level. -/
theorem isSome_resolver (s s' : AttributeSet K) (level level' : Nat) (qualifier : Option String)
    (name : String) (o o' : Outcome) :
    (resolver s level qualifier name o).isSome = (resolver s' level' qualifier name o').isSome := by
  unfold resolver
  split
  · rfl
  · split
    · rfl
    · rw [Option.isSome_map, Option.isSome_map]

theorem known_resolver (s s' : AttributeSet K) (level level' : Nat) (o o' : Outcome) (site : Site) :
    site.known (resolver s level) o = site.known (resolver s' level') o' := by
  cases site with
  | property calls qualifier name => exact isSome_resolver ..
  | function qualifier name => rfl

theorem validate_resolver (s s' : AttributeSet K) (level level' : Nat) (e : Expr K) :
    e.validate (resolver s level) = e.validate (resolver s' level') := by
  rw [Expr.validate_eq, Expr.validate_eq]
  exact report_congr fun site _ => known_resolver s s' level level' _ _ site

/-- A formula that passes the check at some values gets all its answers at any others. -/
theorem strict_of_validate {s : AttributeSet K} {level : Nat} {e : Expr K}
    (h : e.validate (resolver s level) = .ok ()) (s' : AttributeSet K) (level' : Nat) :
    e.strict (resolver s' level') = some (e.eval (resolver s' level')) := by
  rw [Expr.validate_eq, report_eq_ok_iff] at h
  refine Expr.strictIn_eq (fun _ _ _ _ hAnswer => hAnswer) e [] fun site hSite o => ?_
  rw [known_resolver s' s level' level o .expected]
  exact h site hSite

/-! ## Compiling -/

/-- A step whose formula passed the check. -/
def Checked (step : Step K) : Prop :=
  step.formula.validate (resolver (.base : AttributeSet K) 1) = .ok ()

theorem checked_of_compileStep {record : StepRecord} {step : Step K} (h : compileStep record = .ok step) :
    Checked step := by
  obtain ⟨e, -, h⟩ := bind_eq_ok_iff.mp h
  obtain ⟨⟨⟩, hValid, h⟩ := bind_eq_ok_iff.mp h
  cases h
  exact hValid

theorem checked_of_compile {records : List StepRecord} {script : Script K}
    (h : compile records = .ok script) : ∀ step ∈ script.steps, Checked step := by
  obtain ⟨steps, hSteps, h⟩ := bind_eq_ok_iff.mp h
  cases h
  have hEach := (mapM_eq_ok_iff_forall₂.mp hSteps).flip
  exact ((List.forall₂_and_left _ _).mp (hEach.imp fun _ _ hStep => ⟨checked_of_compileStep hStep, hStep⟩)).1

/-! ## Running with answers only -/

/-- One step, if its formula has all its answers. -/
def runStep? (level : Nat) (s : AttributeSet K) (step : Step K) : Option (AttributeSet K) :=
  (step.formula.strict (resolver s level)).map fun x =>
    s.set step.target (step.op.apply (s.get step.target) x)

/-- A run, if all formulas have all their answers when their steps come. -/
def run? (script : Script K) (level : Nat) (s : AttributeSet K) : Option (AttributeSet K) :=
  script.steps.foldlM (runStep? level) s

theorem runStep?_eq {step : Step K} (h : Checked step) (level : Nat) (s : AttributeSet K) :
    runStep? level s step = some (runStep level s step) := by
  rw [runStep?, strict_of_validate h, Option.map_some, runStep]

theorem run?_eq {script : Script K} (h : ∀ step ∈ script.steps, Checked step) (level : Nat)
    (s : AttributeSet K) : script.run? level s = some (script.run level s) := by
  obtain ⟨steps⟩ := script
  unfold run? run
  -- General attributes, as the other steps start from what the first one wrote.
  induction steps generalizing s with
  | nil => rfl
  | cons step rest ih =>
    obtain ⟨hFirst, hRest⟩ := List.forall_mem_cons.mp h
    rw [List.foldlM_cons, runStep?_eq hFirst, Option.bind_eq_bind, Option.bind_some, List.foldl_cons]
    exact ih (runStep level s step) hRest

/-! ## What a run leaves alone -/

theorem get_runStep_of_ne {step : Step K} {a : Attribute} (h : step.target ≠ a) (level : Nat)
    (s : AttributeSet K) : (runStep level s step).get a = s.get a := by
  rw [runStep, AttributeSet.get_set, if_neg h]

theorem get_run_of_not_mem {script : Script K} {a : Attribute} (h : a ∉ script.targets) (level : Nat)
    (s : AttributeSet K) : (script.run level s).get a = s.get a := by
  unfold run
  refine List.foldlRecOn (motive := fun found : AttributeSet K => found.get a = s.get a) _ _ rfl ?_
  intro found hSame step hStep
  have hTarget : step.target ≠ a := fun hEq => h (hEq ▸ List.mem_map_of_mem hStep)
  rw [get_runStep_of_ne hTarget, hSame]

theorem extra_run (script : Script K) (level : Nat) (s : AttributeSet K) :
    (script.run level s).extra = s.extra :=
  List.foldlRecOn (motive := fun found : AttributeSet K => found.extra = s.extra) _ _ rfl fun _ hSame _ _ => hSame

/-! ## What a run depends on -/

theorem get_runStep_congr {s s' : AttributeSet K} (h : ∀ a, s.get a = s'.get a) (level : Nat) (step : Step K)
    (a : Attribute) : (runStep level s step).get a = (runStep level s' step).get a := by
  have hValue := step.eval_congr level fun b _ => h b
  rw [runStep, runStep, AttributeSet.get_set, AttributeSet.get_set, hValue, h, h]

theorem get_run_congr (script : Script K) (level : Nat) {s s' : AttributeSet K}
    (h : ∀ a, s.get a = s'.get a) (a : Attribute) :
    (script.run level s).get a = (script.run level s').get a := by
  have hRun : ∀ a, (script.run level s).get a = (script.run level s').get a :=
    List.foldl_rel (r := fun found found' : AttributeSet K => ∀ a, found.get a = found'.get a) h
      fun step _ _ _ hSame => get_runStep_congr hSame level step
  exact hRun a

/-- A script that was compiled, at any level and on any attributes. Every formula is valid on the attributes that
its step finds and has its value from the answers alone, so the whole run needs no others. No attribute but the
targets changes, and no extra; and the attributes at the end depend on the attributes at the start only. -/
theorem run_of_compile {records : List StepRecord} {script : Script K} (h : compile records = .ok script)
    (level : Nat) (s : AttributeSet K) :
    (∀ before step after, script.steps = before ++ step :: after →
      let found := run ⟨before⟩ level s
      step.formula.validate (resolver found level) = .ok () ∧
        step.formula.strict (resolver found level) = some (step.formula.eval (resolver found level))) ∧
      script.run? level s = some (script.run level s) ∧
      (∀ a, a ∉ script.targets → (script.run level s).get a = s.get a) ∧
      (script.run level s).extra = s.extra ∧
      ∀ s' : AttributeSet K, (∀ a, s.get a = s'.get a) →
        ∀ a, (script.run level s).get a = (script.run level s').get a := by
  have hChecked := checked_of_compile h
  refine ⟨fun before step after hSplit => ?_, run?_eq hChecked level s,
    fun a ha => get_run_of_not_mem ha level s, extra_run script level s,
    fun s' hSame => get_run_congr script level hSame⟩
  have hStep : Checked step := hChecked step (by rw [hSplit]; simp)
  exact ⟨(validate_resolver ..).trans hStep, strict_of_validate hStep _ _⟩

section

open scoped Exact

/-- Two steps, of which the second one reads what the first one writes. -/
def rampartSteps : List StepRecord :=
  [⟨.attack, .set, "防御 * 等级"⟩, ⟨.power, .multiply, "攻击 / 100"⟩]

def rampart : Script ℚ where
  steps := [⟨.attack, .set, .binary .mul (.property none "防御") (.property none "等级")⟩,
    ⟨.power, .multiply, .binary .div (.property none "攻击") (.number (literal ['1', '0', '0']))⟩]

/-- Some attributes, with an extra. -/
def entrenched : AttributeSet ℚ := (AttributeSet.base.set .defense 50).addExtra "余热" 7

set_option maxRecDepth 20000 in
/-- Both formulas have their answers at level four, and an attribute that neither step writes stays. Without the
extra the outcome is the same. -/
theorem run_of_compile_rampart : compile rampartSteps = .ok rampart ∧
    rampart.run? 4 entrenched = some (rampart.run 4 entrenched) ∧
    (rampart.run 4 entrenched).get .attack = 200 ∧
    .range ∉ rampart.targets ∧ (rampart.run 4 entrenched).get .range = entrenched.get .range ∧
    (rampart.run 4 entrenched).extra = entrenched.extra ∧
    (rampart.run 4 entrenched).get .power = 2 ∧
    (rampart.run 4 { entrenched with extra := .empty }).get .power = 2 := by
  have hCompile : compile rampartSteps = .ok rampart := by with_unfolding_all rfl
  have hAttack : (rampart.run 4 entrenched).get .attack = 200 := by decide +kernel
  have hPower : (rampart.run 4 entrenched).get .power = 2 := by decide +kernel
  have hRange : .range ∉ rampart.targets := by decide
  obtain ⟨-, hAnswered, hKept, hExtra, hSame⟩ := run_of_compile hCompile 4 entrenched
  refine ⟨hCompile, hAnswered, hAttack, hRange, hKept .range hRange, hExtra, hPower, ?_⟩
  exact (hSame { entrenched with extra := .empty } (fun _ => rfl) .power).symm.trans hPower

end

end Script

end Loadout
