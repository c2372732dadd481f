import Mathlib.Algebra.Order.Field.Rat
import Loadout.Formula.Parser
import Loadout.Proofs.Formula.Retargeting
import Loadout.Proofs.Replay.Conservation

/-!
# The formula of an action and its replay

What an action does is computed in two ways. A formula takes the damage after defense, which is a factor of
every damage in the grid of a hit. A replay takes the damage before defense and lets the pools of the enemy
mitigate what reaches health. For an enemy whose damage is counted against health and that has no shield this
comes to the same, as long as the replay plays the action alone and the action makes one attack.

* `Attack.weaponDamage_eq`, `Attack.skillDamage_eq`: defense as a factor of all damage;
* `Scene.actionTotal_eq`: defense as a factor of what an action does;
* `Scene.eval_actionFormula`: what an action does is the value of a formula;
* `Enemy.takeHit_unshielded`: a hit without a shield in its way;
* `Build.replay_action_eq_formula`: both ways agree.
-/

namespace Loadout

/-! ## Without defense -/

section

variable {K : Type} [Number K]

theorem DamageGrid.get_scale (g : DamageGrid K) (factor : K) (o : Outcome) :
    (g.scale factor).get o = g.get o * factor := by
  cases o <;> rfl

/-- The attack on an enemy that defense does not protect. -/
def Attack.bare (a : Attack K) : Attack K := { a with defense := 1.0 }

/-- The scene in which defense does not protect the enemy. -/
def Scene.bare (c : Scene K) : Scene K := { c with defense := some 1.0 }

/-- All hits of an action, counting one hit at least. -/
def actionFormula : Formula.Expr K :=
  .binary .mul (.property none "伤害")
    (.call none "max" [.number (Formula.literal ['1']), .property none "段数"])

set_option maxRecDepth 20000 in
theorem parse_actionFormula :
    Formula.parse .empty "伤害 * max(1, 段数)" = .ok (actionFormula : Formula.Expr K) := by
  with_unfolding_all rfl

end

variable {K : Type} [ExactNumber K]

open ExactNumber (zero_eq one_eq greatest_eq_max least_eq_min sum_eq)

theorem Formula.literal_one : literal ['1'] = (1 : K) := by
  change Number.toOfScientific.ofScientific 1 true 0 = (1 : K)
  rw [ExactNumber.ofScientific_eq, if_pos rfl, Nat.cast_one, pow_zero, div_one]

/-! ## What defense lets through is a factor -/

namespace Attack

theorem commonFactor_eq (a : Attack K) : a.commonFactor = a.bare.commonFactor * a.defense := by
  simp only [commonFactor, bare, one_eq, mul_one]

theorem weaponFactor_eq (a : Attack K) (w : WeaponStats K) :
    a.weaponFactor w = a.bare.weaponFactor w * a.defense := by
  simp only [weaponFactor, a.commonFactor_eq, mul_right_comm _ a.defense]
  rfl

theorem weaponDamage_eq (a : Attack K) (w : WeaponStats K) (damageType : String) (multiplier : K) :
    a.weaponDamage w damageType multiplier =
      (a.bare.weaponDamage w damageType multiplier).scale a.defense := by
  simp only [weaponDamage, DamageGrid.scale, DamageGrid.map, Spread.map, a.weaponFactor_eq, ← mul_assoc]
  rfl

theorem skillDamage_eq (a : Attack K) (base : K) :
    a.skillDamage base = (a.bare.skillDamage base).scale a.defense := by
  simp only [skillDamage, a.commonFactor_eq, ← mul_assoc, mul_right_comm _ a.defense]
  rfl

end Attack

namespace Scene

theorem weaponStrike_eq (c : Scene K) (w : Wielded K) :
    c.weaponStrike w =
      ⟨(c.bare.weaponStrike w).damage.scale c.attack.defense, (c.bare.weaponStrike w).hits⟩ := by
  simp only [weaponStrike, c.attack.weaponDamage_eq]
  rfl

/-- Defense scales the damage of a strike and leaves its hits. -/
theorem strike_eq (c : Scene K) (a : Action K) (field : Option (SkillField K)) :
    c.strike a field =
      ⟨(c.bare.strike a field).damage.scale c.attack.defense, (c.bare.strike a field).hits⟩ := by
  cases a with
  | weapon w => exact c.weaponStrike_eq w
  | weaponSkill w s =>
    simp only [strike]
    cases field.or s.primaryDamage? with
    | some f =>
      simp only [weaponFieldStrike, c.attack.weaponDamage_eq]
      rfl
    | none => exact c.weaponStrike_eq w
  | skill s =>
    simp only [strike]
    cases field.or s.primaryDamage? with
    | some f =>
      simp only [fieldStrike, c.attack.skillDamage_eq]
      rfl
    | none =>
      -- Without a field about damage there is none to scale.
      simp only [DamageGrid.scale, DamageGrid.map, DamageGrid.flat, Spread.map, Spread.same, zero_eq, zero_mul]

theorem actionTotal_eq (c : Scene K) (o : Outcome) :
    c.actionTotal o = c.bare.actionTotal o * c.attack.defense := by
  simp only [actionTotal, Strike.total, c.strike_eq, DamageGrid.get_scale, mul_right_comm _ c.attack.defense]
  rfl

open Formula Formula.Expr in
/-- What an action does is the value of a formula. -/
theorem eval_actionFormula (c : Scene K) : actionFormula.eval c.resolver = c.actionTotal .expected := by
  set strike := c.strike c.action none
  have hDamage : c.resolver none "伤害" .expected = some (strike.damage.get .expected) := rfl
  have hHits : c.resolver none "段数" .expected = some strike.hits := rfl
  have hMax : Builtin.ofName? "max" = some .max := rfl
  have hAtLeastOne : Builtin.max.apply [literal ['1'], strike.hits] = max strike.hits 1 := by
    simp only [Builtin.apply, Builtin.raw, joinAll, List.foldl_cons, List.foldl_nil, ExactNumber.finite_eq, if_true,
      greatest_eq_max, literal_one, max_comm]
  simp only [actionFormula, eval, evalIn, evalAllIn, Option.none_or, hDamage, hHits, hMax, Option.getD_some,
    BinaryOp.apply, hAtLeastOne]
  rw [actionTotal, Strike.total, greatest_eq_max, one_eq]

end Scene

namespace Enemy

/-- A hit with no shield in its way, if health does not gain from it. -/
theorem takeHit_unshielded {e : Enemy K} (hShield : e.shield = 0) {raw mitigation : K}
    (hMitigation : 0 ≤ mitigation) (hValue : 0 ≤ raw * mitigation) :
    e.takeHit raw mitigation =
      ({ e with health := e.health - min (raw * mitigation) e.health, pool := .health },
        ⟨0, min (raw * mitigation) e.health⟩) := by
  have hHealth : max raw 0 * mitigation = raw * mitigation := by
    rw [max_mul_of_nonneg _ _ hMitigation, zero_mul, max_eq_left hValue]
  have hTaken : min (max raw 0) 0 = 0 := min_eq_right (le_max_right _ _)
  simp only [takeHit, zero_eq, greatest_eq_max, least_eq_min, hShield, hTaken, sub_zero, hHealth, lt_irrefl,
    if_false]

end Enemy

namespace Build

variable {b : Build K} {a : ActionItem K}

/-- A replay of one action without buffs is one hit. -/
theorem replay_single (b : Build K) (a : ActionItem K) :
    b.replay ⟨[.action a]⟩ =
      let scene := (b.selecting a.name).scene
      let attacks := attacksIn scene.bare a.duration
      let raw := scene.bare.actionTotal .expected * attacks
      let hit := b.enemy.takeHit raw
        (b.enemy.healthMitigation b.character.level (scene.attributes.get .ignoreDefense))
      .ok ⟨[⟨a.name, a.start, [], attacks, raw, hit.2⟩], Number.sum [hit.2.total], hit.1⟩ := rfl

/-- An action that does not fire makes one attack. -/
theorem attacksIn_eq_one {c : Scene K} (h : ∀ w, c.action = .weapon w → w.weapon.base.fireRate = none)
    (duration : K) : attacksIn c duration = 1 := by
  unfold attacksIn
  split
  · rename_i w hAction
    rw [h w hAction]
    exact one_eq
  · exact one_eq

/-- A timeline of one action deals the value of the formula, as far as the enemy has health. The formula counts
defense among its factors and the replay mitigates by it; a value that is not negative is the same in both,
since a negative one could only come from negative damage, which a replay takes for none. -/
theorem replay_action_eq_formula
    (hPool : b.enemy.pool = .health) (hShield : b.enemy.shield = 0)
    (hOnce : ∀ w, b.action a.name = .weapon w → w.weapon.base.fireRate = none) :
    ∃ e, Formula.parse .empty "伤害 * max(1, 段数)" = .ok e ∧
      let v := e.eval (b.selecting a.name).scene.resolver
      (0 ≤ v → ∃ report, b.replay ⟨[.action a]⟩ = .ok report ∧
        report.actions.map (·.dealt) = [⟨0, min v b.enemy.health⟩] ∧
        report.total = min v b.enemy.health ∧ report.enemy.shield = b.enemy.shield) := by
  refine ⟨actionFormula, parse_actionFormula, ?_⟩
  intro v hValue
  set c := (b.selecting a.name).scene
  set mitigation := b.enemy.healthMitigation b.character.level (c.attributes.get .ignoreDefense)
    with hMitigation
  have hDefense : c.attack.defense = mitigation := by
    change b.enemy.mitigation _ _ = _
    rw [Enemy.mitigation, hPool]
    rfl
  have hNonneg : 0 ≤ mitigation := (defenseMultiplier_mem ..).1
  have hRaw : c.bare.actionTotal .expected * mitigation = v := by
    rw [← hDefense, ← c.actionTotal_eq, ← c.eval_actionFormula]
  have hHit : b.enemy.takeHit (c.bare.actionTotal .expected) mitigation =
      ({ b.enemy with health := b.enemy.health - min v b.enemy.health, pool := .health },
        ⟨0, min v b.enemy.health⟩) := by
    rw [Enemy.takeHit_unshielded hShield hNonneg (hValue.trans_eq hRaw.symm), hRaw]
  have hAttacks : attacksIn c.bare a.duration = 1 := attacksIn_eq_one hOnce a.duration
  refine ⟨_, b.replay_single a, ?_⟩
  dsimp only
  rw [hAttacks, mul_one, ← hMitigation, hHit]
  refine ⟨rfl, ?_, rfl⟩
  rw [sum_eq, List.sum_singleton, PoolHit.total, zero_add]

section

open scoped Exact

/-- The value of the formula is cut off at the health that is there. -/
theorem replay_action_eq_formula_blade : ∃ start e report, ofOptions duel .default dueling = .ok start ∧
    let b := start.runAll [.setEnemy { sentry with shield := 0, pool := .health }]
    (∀ w, b.action "刀" = .weapon w → w.weapon.base.fireRate = none) ∧
    Formula.parse .empty "伤害 * max(1, 段数)" = .ok e ∧
    e.eval (b.selecting "刀").scene.resolver = 240 ∧
    b.replay ⟨[.action ⟨"刀", 0, 0, 0⟩]⟩ = .ok report ∧ report.total = 200 ∧ report.enemy.shield = 0 := by
  obtain ⟨start, hStart⟩ : ∃ start, ofOptions duel .default dueling = .ok start := ⟨_, rfl⟩
  set b := start.runAll [.setEnemy { sentry with shield := 0, pool := .health }]
  have hOnce : ∀ w, b.action "刀" = .weapon w → w.weapon.base.fireRate = none := by
    cases hStart
    rintro w ⟨⟩
    rfl
  obtain ⟨e, hParse, hAgree⟩ := replay_action_eq_formula (b := b) (a := ⟨"刀", 0, 0, 0⟩) rfl rfl hOnce
  have hValue : e.eval (b.selecting "刀").scene.resolver = 240 := by
    cases parse_actionFormula.symm.trans hParse
    cases hStart
    decide +kernel
  obtain ⟨report, hReplay, -, hTotal, hShield⟩ := hAgree (by rw [hValue]; decide)
  refine ⟨start, e, report, hStart, hOnce, hParse, hValue, hReplay, ?_, hShield⟩
  rw [hTotal, hValue]
  exact min_eq_right (by decide : sentry.health ≤ 240)

end

end Build

end Loadout
