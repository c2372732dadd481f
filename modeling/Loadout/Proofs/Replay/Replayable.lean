import Loadout.Build.Score
import Loadout.Proofs.Build.Retold

/-!
# When a timeline can be replayed

A build is not put together unless the buffs of its timeline are known. Whether their scripts can be compiled
is not asked until an action is played that they reach. So a replay comes to the same end as compiling the
scripts of all buffs that reach an action, in the order in which they do. A buff that the build has already is
not added again; but then its script has been compiled before.

* `Timeline.reached`, `Database.script`: what a replay asks for;
* `verdict_scenario`, `verdict_playAll`, `verdict_replay`: it asks for nothing else;
* `timeline_ofOptions`: what is known of the timeline of a build;
* `replay_ofOptions`: when it can be replayed.
-/

namespace Loadout

/-! ## Whether steps succeed -/

section

variable {ε α β : Type}

/-- Whether a computation succeeds, and why it does not. -/
def verdict (x : Except ε α) : Except ε Unit := x.map fun _ => ()

theorem verdict_eq_ok_iff {x : Except ε α} : verdict x = .ok () ↔ ∃ a, x = .ok a := by
  cases x with
  | error e => exact ⟨fun h => (by cases h), fun ⟨_, h⟩ => (by cases h)⟩
  | ok a => exact iff_of_true rfl ⟨a, rfl⟩

theorem verdict_eq_error_iff {x : Except ε α} {e : ε} : verdict x = .error e ↔ x = .error e := by
  cases x with
  | error e' => exact ⟨fun h => congrArg _ (Except.error.inj h), fun h => congrArg _ (Except.error.inj h)⟩
  | ok a => exact ⟨fun h => (by cases h), fun h => (by cases h)⟩

/-- Where the second step does the same after any first one. -/
theorem verdict_bind {x : Except ε α} {f : α → Except ε β} {y : Except ε Unit}
    (h : ∀ a, x = .ok a → verdict (f a) = y) : verdict (x >>= f) = verdict x >>= fun _ => y := by
  cases hx : x with
  | error e => rfl
  | ok a => exact h a hx

theorem verdict_bind_pure (x : Except ε α) (f : α → β) : verdict (do return f (← x)) = verdict x := by
  cases x <;> rfl

/-- A run of steps succeeds as the checks for each of them do, as long as it keeps to where they say so. -/
theorem verdict_foldlM {f : β → α → Except ε β} {check : α → Except ε Unit} {I : β → Prop}
    (hCheck : ∀ b a, I b → verdict (f b a) = check a) (hKeep : ∀ b a, I b → Ensures (f b a) I) {b : β}
    (hb : I b) (as : List α) : verdict (as.foldlM f b) = forM as check := by
  induction as generalizing b with
  | nil => rfl
  | cons a rest ih =>
    rw [List.foldlM_cons, List.forM_cons, ← hCheck b a hb]
    exact verdict_bind fun b' hStep => ih (hKeep b a hb b' hStep)

end

variable {K : Type} [Number K]

/-- The names of the buffs that reach the actions of a timeline, in the order in which they do. -/
def Timeline.reached (t : Timeline K) : List String :=
  t.actions.flatMap fun a => (t.activeBuffs a.layer a.start).map (·.name)

theorem Timeline.mem_reached_iff {t : Timeline K} {name : String} : name ∈ t.reached ↔
    ∃ a ∈ t.actions, ∃ item ∈ t.activeBuffs a.layer a.start, item.name = name := by
  simp [Timeline.reached]

/-- The script of a buff, looked up and compiled. -/
def Database.script (d : Database K) (name : String) : Except BuildError (Option (Script K)) := do
  let record ← d.buff name
  Buff.scriptOf record

theorem Buff.verdict_ofRecord (r : BuffRecord K) (level : Option Nat) :
    verdict (ofRecord r level) = verdict (scriptOf r) := verdict_bind_pure ..

theorem BuffChoice.Makes.script {choice : BuffChoice} {d : Database K} {f : Buff K} (h : choice.Makes d f) :
    verdict (d.script choice.name) = .ok () := by
  rw [Database.script, h.record]
  change verdict (Buff.scriptOf f.record) = _
  rw [← Buff.verdict_ofRecord f.record choice.level, h.ofRecord]
  rfl

namespace Build

variable {b : Build K} {d : Database K}

theorem verdict_addBuff (b : Build K) (name : String) (level : Option Nat) :
    verdict (b.addBuff name level) = verdict (b.database.script name) := by
  rw [addBuff, Database.script]
  cases b.database.buff name with
  | error e => rfl
  | ok r =>
    change verdict (Buff.ofRecord r level >>= _) = verdict (Buff.scriptOf r)
    rw [← Buff.verdict_ofRecord r level]
    cases Buff.ofRecord r level with
    | error e => rfl
    | ok f =>
      change verdict (if f.isDynamic = true then _ else _) = _
      split <;> rfl

/-- The script of a buff that a build has can be compiled. -/
theorem Traced.script_of_hasBuff (h : b.Traced d) (hd : d.Loaded) {name : String} (hHas : b.hasBuff name = true) :
    verdict (d.script name) = .ok () := by
  obtain ⟨f, hf, hName⟩ := List.any_eq_true.mp hHas
  have hMakes : ∃ choice : BuffChoice, choice.Makes d f := by
    rcases List.mem_append.mp hf with hf | hf
    · exact (h.buffs f hf).2
    · exact (h.dynamicBuffs f hf).2
  obtain ⟨choice, hMakes⟩ := hMakes
  have hChoice : choice.name = name := (hd.buff_name hMakes.record).symm.trans (beq_iff_eq.mp hName)
  exact hChoice ▸ hMakes.script

/-! ## What a replay asks for -/

theorem Scenario.verdict_addBuff {s : Scenario K} (h : s.build.Traced d) (hd : d.Loaded) (item : BuffItem K) :
    verdict (s.addBuff item) = verdict (d.script item.name) := by
  rw [Scenario.addBuff]
  split
  · next hHas => exact (h.script_of_hasBuff hd hHas).symm
  · exact (verdict_bind_pure ..).trans (h.database_eq ▸ Build.verdict_addBuff ..)

theorem Scenario.ensures_addBuff {s : Scenario K} (h : s.build.Traced d) (item : BuffItem K) :
    Ensures (s.addBuff item) fun s' => s'.build.Traced d := by
  rw [Scenario.addBuff]
  split
  · exact ensures_ok h
  · exact (h.addBuff item.name item.level).bind fun b hb => ensures_ok hb

/-- The loadout for an action can be had when the scripts of the buffs that reach it can be compiled. -/
theorem verdict_scenario (h : b.Traced d) (hd : d.Loaded) (t : Timeline K) (a : ActionItem K) :
    verdict (b.scenario t a) =
      forM (t.activeBuffs a.layer a.start) fun item => verdict (d.script item.name) := by
  have hStart : ({ b with timeline := none, actionName := a.name } : Build K).Traced d := { h with }
  exact verdict_foldlM (I := fun s : Scenario K => s.build.Traced d)
    (fun _ item hs => Scenario.verdict_addBuff hs hd item) (fun _ item hs => Scenario.ensures_addBuff hs item)
    hStart _

theorem verdict_playAction (b : Build K) (t : Timeline K) (enemy : Enemy K) (a : ActionItem K) :
    verdict (b.playAction t enemy a) = verdict (b.scenario t a) := verdict_bind_pure ..

/-- Nothing else can go wrong with an action, and no action goes wrong for what the ones before it did. -/
theorem verdict_playAll (h : b.Traced d) (hd : d.Loaded) (t : Timeline K) (enemy : Enemy K)
    (actions : List (ActionItem K)) : verdict (b.playAll t enemy actions) =
      forM (actions.flatMap fun a => (t.activeBuffs a.layer a.start).map (·.name)) (verdict <| d.script ·) := by
  induction actions generalizing enemy with
  | nil => rfl
  | cons a rest ih =>
    rw [playAll, List.flatMap_cons, List.forM_append, List.forM_map, ← verdict_scenario h hd,
      ← verdict_playAction b t enemy a]
    exact verdict_bind fun played _ => (verdict_bind_pure ..).trans (ih played.1)

theorem verdict_replay (h : b.Traced d) (hd : d.Loaded) (t : Timeline K) :
    verdict (b.replay t) = forM t.reached (verdict <| d.script ·) :=
  (verdict_bind_pure ..).trans (verdict_playAll h hd t b.enemy t.actions)

/-! ## Builds from options -/

omit [Number K] in
theorem checkTimeline_eq_ok_iff {t : Timeline K} :
    checkTimeline d t = .ok () ↔ ∀ item ∈ t.buffs, ∃ r, d.buff item.name = .ok r := by
  change forM t.buffs (fun item => verdict (d.buff item.name)) = _ ↔ _
  rw [forM_eq_ok_iff]
  exact forall₂_congr fun _ _ => verdict_eq_ok_iff

variable {settings : Settings K} {o : BuildOptions K} {t : Timeline K}

/-- A build keeps the timeline of its options, and its database knows all buffs of it. -/
theorem timeline_ofOptions (h : ofOptions d settings o = .ok b) (ht : o.timeline = some t) :
    b.timeline = some t ∧ ∀ item ∈ t.buffs, ∃ r, d.buff item.name = .ok r := by
  obtain ⟨b₀, hBare, hFrame⟩ := exists_bare_of_ofOptions h
  obtain ⟨_, _, _, _, _, _, _, _, _, _, hTimeline, rfl⟩ := bare_eq_ok_iff.mp hBare
  rw [ht] at hTimeline
  exact ⟨(congrArg Build.timeline hFrame).trans ht, checkTimeline_eq_ok_iff.mp hTimeline⟩

theorem score_of_replay {report : ReplayReport K} (ht : b.timeline = some t) (h : b.replay t = .ok report) :
    b.score = report.total := by
  simp only [score, ht, h]

theorem score_of_replay_error {e : BuildError} (ht : b.timeline = some t) (h : b.replay t = .error e) :
    b.score = 0.0 := by
  simp only [score, ht, h]

/-- What stands in the way of the script of a buff that is known is a formula. -/
theorem exists_formula_of_script {name : String} {r : BuffRecord K} {e : BuildError}
    (hKnown : d.buff name = .ok r) (h : d.script name = .error e) :
    ∃ fault, Buff.scriptOf r = .error (.formula fault) ∧ e = .formula fault := by
  rw [Database.script, hKnown] at h
  change Buff.scriptOf r = .error e at h
  obtain ⟨fault, rfl⟩ : ∃ fault, e = .formula fault := by
    rw [Buff.scriptOf] at h
    cases hScript : r.script with
    | none => rw [hScript] at h; cases h
    | some steps =>
      rw [hScript] at h
      change liftFormula _ = _ at h
      cases hCompile : (Script.compile steps : Except FormulaError (Script K)) with
      | ok script => rw [hCompile] at h; cases h
      | error fault => rw [hCompile] at h; cases h; exact ⟨fault, rfl⟩
  exact ⟨fault, h, rfl⟩

/-- A build from options knows the buffs of its timeline, but only a replay asks for their scripts: it succeeds
when the scripts of all buffs that reach an action can be compiled, and fails as the first of them that cannot,
in the order of the replay. The score is what the timeline deals, or zero. -/
theorem replay_ofOptions (hd : d.Loaded) (h : ofOptions d settings o = .ok b) (ht : o.timeline = some t) :
    b.timeline = some t ∧ (∀ item ∈ t.buffs, ∃ r, d.buff item.name = .ok r) ∧
      verdict (b.replay t) = forM t.reached (verdict <| d.script ·) ∧
      ((∃ report, b.replay t = .ok report) ↔ ∀ name ∈ t.reached, ∃ script, d.script name = .ok script) ∧
      (∀ report, b.replay t = .ok report → b.score = report.total) ∧
      ∀ e, b.replay t = .error e → b.score = 0.0 ∧ ∃ name ∈ t.reached, ∃ r fault,
        d.buff name = .ok r ∧ Buff.scriptOf r = .error (.formula fault) ∧ e = .formula fault := by
  have hTraced : b.Traced d := traced_runAll hd h []
  obtain ⟨hTimeline, hKnown⟩ := timeline_ofOptions h ht
  have hVerdict := verdict_replay hTraced hd t
  refine ⟨hTimeline, hKnown, hVerdict, ?_, fun _ => score_of_replay hTimeline, fun e hReplay => ?_⟩
  · simp only [← verdict_eq_ok_iff, hVerdict, forM_eq_ok_iff]
  · refine ⟨score_of_replay_error hTimeline hReplay, ?_⟩
    rw [← verdict_eq_error_iff, hVerdict] at hReplay
    obtain ⟨name, hReached, hScript⟩ := exists_of_forM_eq_error hReplay
    obtain ⟨a, -, item, hItem, rfl⟩ := Timeline.mem_reached_iff.mp hReached
    obtain ⟨r, hRecord⟩ := hKnown item (List.mem_of_mem_filter hItem)
    obtain ⟨fault, hFault⟩ := exists_formula_of_script hRecord (verdict_eq_error_iff.mp hScript)
    exact ⟨item.name, hReached, r, fault, hRecord, hFault⟩

/-! ## A vigil -/

/-- A buff that adds what a formula says to the attack. -/
def omen (name formula : String) : BuffRecord Float where
  name := name
  description := ""
  bonuses := .empty
  a := none
  b := none
  defaultLevel := none
  minLevel := none
  maxLevel := none
  script := some [⟨.attack, .add, formula⟩]

/-- A database in which one formula reads what there is not. -/
def shrine : Database Float :=
  { sanctum with buffs := Database.index BuffRecord.name [omen "攻势" "10", omen "虚" "不存在"] }

theorem loaded_shrine : shrine.Loaded := { loaded_sanctum with buffs := ⟨_, rfl⟩ }

/-- One action at a time before or after the second buff takes over. -/
def vigil (time : Float) : Timeline Float :=
  ⟨[.buff ⟨"攻势", none, 0.0, 10.0, 0⟩, .buff ⟨"虚", none, 5.0, 10.0, 0⟩, .action ⟨"刀", time, 1.0, 0⟩]⟩

def atVigil (time : Float) : BuildOptions Float := { atFifthLevel "术士" with timeline := some (vigil time) }

/-- The first buff does no harm. -/
theorem replay_ofOptions_vigil : ∃ b report, ofOptions shrine .default (atVigil 0.0) = .ok b ∧
    b.replay (vigil 0.0) = .ok report ∧ b.score = report.total := by
  have h : ofOptions shrine .default (atVigil 0.0) = .ok _ := rfl
  have hReached : (vigil 0.0).reached = ["攻势"] := by decide +kernel
  have hScript : ∃ script, shrine.script "攻势" = .ok script := ⟨_, by with_unfolding_all rfl⟩
  obtain ⟨-, -, -, hReplay, hScore, -⟩ := replay_ofOptions loaded_shrine h rfl
  rw [hReached, List.forall_mem_singleton] at hReplay
  obtain ⟨report, hReport⟩ := hReplay.mpr hScript
  exact ⟨_, report, h, hReport, hScore report hReport⟩

set_option maxRecDepth 4096 in
/-- The second buff stops the replay of a build that was put together, and the build scores nothing. -/
theorem replay_fails_vigil : ∃ b, ofOptions shrine .default (atVigil 6.0) = .ok b ∧
    b.timeline = some (vigil 6.0) ∧ b.score = 0.0 ∧
    b.replay (vigil 6.0) = .error (.formula (.unknownIdentifier none "不存在")) := by
  have h : ofOptions shrine .default (atVigil 6.0) = .ok _ := rfl
  have hReached : (vigil 6.0).reached = ["虚"] := by decide +kernel
  have hScript : shrine.script "虚" = .error (.formula (.unknownIdentifier none "不存在")) := by
    with_unfolding_all rfl
  have hVerdict := verdict_replay (traced_runAll loaded_shrine h []) loaded_shrine (vigil 6.0)
  rw [hReached, List.forM_cons, hScript] at hVerdict
  have hReplay := verdict_eq_error_iff.mp hVerdict
  exact ⟨_, h, rfl, score_of_replay_error rfl hReplay, hReplay⟩

end Build

end Loadout
