import Loadout.Build.Score
import Loadout.Proofs.Build.Sourced
import Loadout.Proofs.Settlement.Reordering
import Mathlib.Data.List.Nodup

/-!
# The order of mods and buffs makes no difference

The conditionals of a build are sorted by the ids of their mods, and no two mods of a build have one id.
Only the aura may repeat the id of a mod, and it comes after that one. So builds whose mods and buffs
stand in another order have the same conditionals in the same order, and in exact arithmetic the same
attributes, the same weapon stats and the same score.

* `insertBy_comm`, `sortBy_append_perm`: sorting forgets an order that it can decide itself;
* `Reordered.alike`: the sources of a reordered build;
* `Reordered.score`: its score, by a formula or by a timeline;
* `Reordered.results_eq`: all of it, for every build that can be made.
-/

namespace Loadout

/-! ## Sorting -/

section

variable {α β : Type} {before : α → α → Bool}

theorem map_insertBy {f : β → α} {before' : β → β → Bool} (h : ∀ a b, before (f a) (f b) = before' a b)
    (a : β) (l : List β) : (insertBy before' a l).map f = insertBy before (f a) (l.map f) := by
  induction l with
  | nil => rfl
  | cons b rest ih =>
    rw [insertBy, List.map_cons, insertBy, h]
    split
    · rw [List.map_cons, ih]
    · rfl

theorem map_sortBy {f : β → α} {before' : β → β → Bool} (h : ∀ a b, before (f a) (f b) = before' a b)
    (l : List β) : (sortBy before' l).map f = sortBy before (l.map f) := by
  induction l with
  | nil => rfl
  | cons a rest ih =>
    change (insertBy before' a (sortBy before' rest)).map f =
      insertBy before (f a) (sortBy before (rest.map f))
    rw [map_insertBy h, ih]

/-- Two members of which one must come before the other may be put in one after the other. -/
theorem insertBy_comm {x y : α} (trans : ∀ a, before a x = true → before a y = true)
    (hxy : before x y = true) (hyx : before y x = false) (l : List α) :
    insertBy before y (insertBy before x l) = insertBy before x (insertBy before y l) := by
  induction l with
  | nil => simp [insertBy, hxy, hyx]
  | cons a rest ih =>
    cases hax : before a x with
    | true =>
      have hay := trans a hax
      simp only [insertBy, hax, hay, if_true, ih]
    | false =>
      cases hay : before a y with
      | true => simp [insertBy, hax, hay, hxy]
      | false => simp [insertBy, hax, hay, hxy, hyx]

/-- The order of members does not matter of which, of any two, one must come before the other. -/
theorem sortBy_append_perm {l l' : List α} (m : List α) (h : l.Perm l')
    (trans : ∀ a b c, before a b = true → before b c = true → before a c = true)
    (hTotal : ∀ x ∈ l, ∀ y ∈ l, x = y ∨ before x y = true ∧ before y x = false ∨
      before y x = true ∧ before x y = false) :
    sortBy before (l ++ m) = sortBy before (l' ++ m) := by
  unfold sortBy
  rw [List.foldr_append, List.foldr_append]
  refine h.foldr_eq' (fun x hx y hy z => ?_) _
  rcases hTotal x hx y hy with rfl | ⟨hxy, hyx⟩ | ⟨hyx, hxy⟩
  · rfl
  · exact insertBy_comm (fun a hax => trans a x y hax hxy) hxy hyx z
  · exact (insertBy_comm (fun a hay => trans a y x hay hyx) hyx hxy z).symm

end

/-! ## What is equipped -/

namespace Equipment

variable {K : Type}

/-- A mod with the scope of its bonuses and the category whose mods are counted for it. -/
structure Place (K : Type) where
  mod : Mod K
  scope : Scope
  counted : ModCategory

/-- The places of the mods in the categories. -/
def modPlaces (e : Equipment K) : List (Place K) :=
  ModCategory.all.flatMap fun c => (e.mods.get c).map fun m => ⟨m, e.scopes.get c, c⟩

def auraPlaces (e : Equipment K) : List (Place K) := e.aura.toList.map fun m => ⟨m, .character, .character⟩

/-- A place with the mods that are counted. -/
def fill (e : Equipment K) (p : Place K) : Equipped K := ⟨p.mod, p.scope, e.mods.get p.counted⟩

/-- Places are ordered as the conditionals are that stand in them. -/
def placeBefore (p q : Place K) : Bool :=
  p.mod.id < q.mod.id || (p.mod.id == q.mod.id && Key.before p.mod.fullName q.mod.fullName)

theorem placeBefore_iff {p q : Place K} : placeBefore p q = true ↔
    p.mod.id < q.mod.id ∨ p.mod.id = q.mod.id ∧ Key.before p.mod.fullName q.mod.fullName = true := by
  simp [placeBefore]

theorem placeBefore_trans (p q r : Place K) (hpq : placeBefore p q = true)
    (hqr : placeBefore q r = true) : placeBefore p r = true := by
  rw [placeBefore_iff] at *
  rcases hpq with hpq | ⟨hpq, hName⟩
  · exact .inl (by omega)
  · rcases hqr with hqr | ⟨hqr, hName'⟩
    · exact .inl (by omega)
    · exact .inr ⟨hpq.trans hqr, Key.trans hName hName'⟩

theorem placeBefore_of_lt {p q : Place K} (h : p.mod.id < q.mod.id) :
    placeBefore p q = true ∧ placeBefore q p = false := by
  refine ⟨placeBefore_iff.mpr (.inl h), ?_⟩
  rw [← Bool.not_eq_true, placeBefore_iff]
  omega

/-- The mods of the categories all have different ids. -/
def Distinct (e : Equipment K) : Prop := (e.modPlaces.map (·.mod.id)).Nodup

/-- Equipment that differs in the order of the mods and of the buffs. -/
structure Reordered (e e' : Equipment K) : Prop where
  character : e'.character = e.character
  weapons : e'.weapons = e.weapons
  mods : ∀ c, (e.mods.get c).Perm (e'.mods.get c)
  scopes : e'.scopes = e.scopes
  aura : e'.aura = e.aura
  buffs : e.buffs.Perm e'.buffs
  dynamicBuffs : e'.dynamicBuffs = e.dynamicBuffs
  resonanceGain : e'.resonanceGain = e.resonanceGain
  settings : e'.settings = e.settings

variable {e e' : Equipment K}

theorem Reordered.modPlaces (h : e.Reordered e') : e.modPlaces.Perm e'.modPlaces := by
  unfold Equipment.modPlaces
  rw [h.scopes]
  exact List.Perm.flatMap_left _ fun c _ => (h.mods c).map _

theorem Reordered.auraPlaces (h : e.Reordered e') : e'.auraPlaces = e.auraPlaces := by
  rw [Equipment.auraPlaces, h.aura]
  rfl

/-- The places of the conditional mods, in order. -/
def conditionalPlaces (e : Equipment K) : List (Place K) :=
  sortBy placeBefore (e.modPlaces.filter (·.mod.isConditional) ++
    e.auraPlaces.filter (·.mod.isConditional))

/-- Conditional mods that stand in another order are sorted alike. -/
theorem Reordered.conditionalPlaces (h : e.Reordered e') (hDistinct : e.Distinct) :
    e'.conditionalPlaces = e.conditionalPlaces := by
  unfold Equipment.conditionalPlaces
  rw [h.auraPlaces]
  -- The aura comes last in both lists, so only mods of the categories change places.
  refine (sortBy_append_perm _ (h.modPlaces.filter _) placeBefore_trans ?_).symm
  intro p hp q hq
  rcases Nat.lt_trichotomy p.mod.id q.mod.id with hlt | heq | hgt
  · exact .inr (.inl (placeBefore_of_lt hlt))
  · exact .inl (List.inj_on_of_nodup_map hDistinct (List.mem_filter.mp hp).1
      (List.mem_filter.mp hq).1 heq)
  · exact .inr (.inr (placeBefore_of_lt hgt))

theorem equipped_eq (e : Equipment K) : e.equipped = (e.modPlaces ++ e.auraPlaces).map e.fill := by
  unfold equipped modPlaces auraPlaces
  rw [List.map_append, List.map_flatMap, List.map_map]
  simp only [List.map_map]
  rfl

variable [Number K]

/-- The conditional in a place. -/
def conditionalAt (e : Equipment K) (p : Place K) : Conditional K := e.modConditional (e.fill p)

theorem conditionals_eq (e : Equipment K) :
    e.toSources.conditionals = e.conditionalPlaces.map e.conditionalAt := by
  have hBefore (p q : Place K) :
      conditionalBefore (e.conditionalAt p) (e.conditionalAt q) = placeBefore p q := rfl
  have hFilter : e.equipped.filter (·.mod.isConditional) =
      ((e.modPlaces ++ e.auraPlaces).filter (·.mod.isConditional)).map e.fill := by
    rw [equipped_eq, List.filter_map]
    rfl
  rw [conditionalPlaces, map_sortBy hBefore, ← List.filter_append]
  change sortBy _ ((e.equipped.filter (·.mod.isConditional)).map e.modConditional) = _
  rw [hFilter, List.map_map]
  rfl

end Equipment

namespace Equipment.Reordered

variable {K : Type} [ExactNumber K] {e e' : Equipment K}

omit [ExactNumber K] in
theorem plainSources (h : e.Reordered e') : e.plainSources.Perm e'.plainSources := by
  unfold Equipment.plainSources
  rw [h.character, h.weapons, h.dynamicBuffs]
  exact (((h.buffs.map _).append_left _).append_right _).map _

theorem modFactor (h : e.Reordered e') : e'.modFactor = e.modFactor := by
  have hAttribute : e'.modAttribute = e.modAttribute :=
    Number.sum_perm (h.plainSources.symm.map _)
  funext m
  unfold Equipment.modFactor
  rw [h.settings, hAttribute]

theorem modSources (h : e.Reordered e') :
    (e.equipped.map e.modSource).Perm (e'.equipped.map e'.modSource) := by
  have hSource : e'.modSource ∘ e'.fill = e.modSource ∘ e.fill := by
    funext p
    change Source.mk p.scope (p.mod.stats.bonuses.scale (e'.modFactor p.mod) []) = _
    rw [h.modFactor]
    rfl
  rw [equipped_eq, equipped_eq, List.map_map, List.map_map, hSource, h.auraPlaces]
  exact (h.modPlaces.append_right _).map _

/-- A condition counts mods, in whatever order they stand. -/
theorem holds (h : e.Reordered e') (p : Place K) (s : AttributeSet K) :
    Sources.holds (e'.conditionalAt p) s = Sources.holds (e.conditionalAt p) s := by
  have hCount : (fun letter : Char => (e'.mods.get p.counted).countP fun m =>
      m.polarity? == some letter) =
      fun letter => (e.mods.get p.counted).countP fun m => m.polarity? == some letter := by
    funext letter
    exact (h.mods p.counted).symm.countP_eq _
  change p.mod.conditions.all (fun condition => condition.holds s fun letter : Char =>
    (e'.mods.get p.counted).countP fun m => m.polarity? == some letter) = _
  rw [hCount]
  rfl

/-- The sources of reordered equipment are the same in another order. -/
theorem alike (h : e.Reordered e') (hDistinct : e.Distinct) : e.toSources.Alike e'.toSources where
  character := by
    change e'.character.stats = e.character.stats
    rw [h.character]
  sources := h.plainSources.append h.modSources
  conditionals := by
    have hBare : Conditional.bare ∘ e'.conditionalAt = Conditional.bare ∘ e.conditionalAt := by
      funext p
      change Conditional.mk _ _ _ [] (p.mod.stats.conditional.scale (e'.modFactor p.mod) []) = _
      rw [h.modFactor]
      rfl
    rw [conditionals_eq, conditionals_eq, h.conditionalPlaces hDistinct, List.map_map, List.map_map, hBare]
  wanted attributes := by
    unfold Sources.wanted
    rw [conditionals_eq, conditionals_eq, h.conditionalPlaces hDistinct, List.map_map, List.map_map]
    exact List.map_congr_left fun p _ => h.holds p attributes
  dynamicBuffs := h.dynamicBuffs
  resonanceGain := h.resonanceGain
  settings := h.settings

end Equipment.Reordered

/-! ## Builds -/

/-- A scene with another build. -/
def Scene.withBuild {K : Type} (c : Scene K) (b : Build K) : Scene K := { c with build := b }

namespace Build

/-- Builds that differ in nothing but the order of the mods in each category and of the static buffs. -/
inductive Reordered {K : Type} (b : Build K) : Build K → Prop
  | intro (mods : PerCategory (List (Mod K))) (buffs : List (Buff K))
      (hMods : ∀ c, (b.mods.get c).Perm (mods.get c)) (hBuffs : b.buffs.Perm buffs) :
      Reordered b { b with mods := mods, buffs := buffs }

section

variable {K : Type} {b b' : Build K}

theorem Reordered.equipment (h : b.Reordered b') : b.equipment.Reordered b'.equipment := by
  obtain ⟨mods, buffs, hMods, hBuffs⟩ := h
  exact ⟨rfl, rfl, hMods, rfl, rfl, hBuffs, rfl, rfl, rfl⟩

/-- The mods of a well-formed build on a database all have different ids. -/
theorem BuiltOn.distinct {d : Database K} (h : b.BuiltOn d) (hWell : b.WellFormed) :
    b.equipment.Distinct := by
  have hAll : ModCategory.all.Nodup := by decide
  unfold Equipment.Distinct Equipment.modPlaces
  rw [List.map_flatMap, List.nodup_flatMap]
  constructor
  · intro c _
    rw [List.map_map, List.Nodup, List.pairwise_map]
    exact (hWell.holds c).apart.imp fun hApart => hApart.id
  · refine hAll.imp fun {c c'} hne => ?_
    intro id hid hid'
    simp only [List.map_map, List.mem_map, Function.comp_apply] at hid hid'
    obtain ⟨m, hm, rfl⟩ := hid
    obtain ⟨n, hn, hId⟩ := hid'
    exact hne (h.category_eq hWell hm hn hId.symm)

end

/-! ## Scenes -/

section

variable {K : Type} [Number K] {c : Scene K} {b' : Build K}

theorem Reordered.resolver_withBuild (h : c.build.Reordered b') :
    (c.withBuild b').resolver = c.resolver := by
  obtain ⟨mods, buffs, -, -⟩ := h
  rfl

end

section

variable {K : Type} [ExactNumber K] {b b' : Build K}

theorem Reordered.settle (h : b.Reordered b') (hDistinct : b.equipment.Distinct) :
    b'.settle = b.settle := (h.equipment.alike hDistinct).settle

theorem Reordered.weaponStats (h : b.Reordered b') (hDistinct : b.equipment.Distinct) (w : Weapon K) :
    b'.weaponStats w = b.weaponStats w := by
  unfold Build.weaponStats
  rw [h.settle hDistinct]
  exact (h.equipment.alike hDistinct).weaponStats _ w

theorem Reordered.scene_eq (h : b.Reordered b') (hDistinct : b.equipment.Distinct) :
    b'.scene = b.scene.withBuild b' := by
  have hWielded : b'.wielded = b.wielded := by
    obtain ⟨mods, buffs, -, -⟩ := h
    rfl
  have hAction : b'.selectedAction = b.selectedAction := by
    obtain ⟨mods, buffs, -, -⟩ := h
    rfl
  have hStats (flags : List Bool) (w : Weapon K) :
      b'.sources.weaponStats flags w = b.sources.weaponStats flags w :=
    (h.equipment.alike hDistinct).weaponStats flags w
  unfold Build.scene Scene.ofSettlement Scene.withBuild
  simp only [h.settle hDistinct, hWielded, hAction, hStats]

theorem Reordered.resolver_scene (h : b.Reordered b') (hDistinct : b.equipment.Distinct) :
    b'.scene.resolver = b.scene.resolver := by
  rw [h.scene_eq hDistinct]
  exact Reordered.resolver_withBuild (c := b.scene) h

theorem Reordered.formulaScore (h : b.Reordered b') (hDistinct : b.equipment.Distinct) :
    b'.formulaScore = b.formulaScore := by
  have hResolver := h.resolver_scene hDistinct
  obtain ⟨mods, buffs, -, -⟩ := h
  unfold Build.formulaScore Build.targetFormula Build.checkedFormula
  simp only [hResolver]
  rfl

end

/-! ## Timelines -/

section

variable {ε α β : Type} {R : α → α → Prop}

/-- Two computations fail alike, or their values are related. -/
inductive Agree (R : α → α → Prop) : Except ε α → Except ε α → Prop
  | ok {a a' : α} (h : R a a') : Agree R (.ok a) (.ok a')
  | error (e : ε) : Agree R (.error e) (.error e)

theorem Agree.bind_eq {x x' : Except ε α} (h : Agree R x x') {f f' : α → Except ε β}
    (hf : ∀ a a', R a a' → f a = f' a') : (x >>= f) = (x' >>= f') := by
  cases h with
  | ok h => exact hf _ _ h
  | error e => rfl

theorem agree_foldlM {γ : Type} {f : α → γ → Except ε α} (hf : ∀ a a' g, R a a' → Agree R (f a g) (f a' g))
    {a a' : α} (h : R a a') (gs : List γ) : Agree R (gs.foldlM f a) (gs.foldlM f a') := by
  induction gs generalizing a a' with
  | nil => exact .ok h
  | cons g rest ih =>
    rw [List.foldlM_cons, List.foldlM_cons]
    have hStep := hf a a' g h
    generalize f a g = x at hStep
    generalize f a' g = x' at hStep
    cases hStep with
    | ok h => exact ih h
    | error e => exact .error e

end

section

variable {K : Type} [Number K] {b b' : Build K}

/-- Loadouts for an action that differ in the order of mods and buffs. -/
structure Scenario.Reordered (s s' : Scenario K) : Prop where
  build : s.build.Reordered s'.build
  added : s'.added = s.added
  distinct : s.build.equipment.Distinct

omit [Number K] in
theorem Reordered.hasBuff (h : b.Reordered b') : b'.hasBuff = b.hasBuff := by
  obtain ⟨mods, buffs, -, hBuffs⟩ := h
  funext name
  exact (hBuffs.symm.append_right _).any_eq

theorem Reordered.addBuff (h : b.Reordered b') (hDistinct : b.equipment.Distinct) (name : String)
    (level : Option Nat) :
    Agree (fun x x' => x.Reordered x' ∧ x.equipment.Distinct) (b.addBuff name level)
      (b'.addBuff name level) := by
  obtain ⟨mods, buffs, hMods, hBuffs⟩ := h
  unfold Build.addBuff
  dsimp only
  cases b.database.buff name with
  | error e => exact .error e
  | ok record =>
    change Agree _ (Buff.ofRecord record level >>= _) (Buff.ofRecord record level >>= _)
    cases Buff.ofRecord record level with
    | error e => exact .error e
    | ok buff =>
      change Agree _ (if buff.isDynamic then _ else _) (if buff.isDynamic then _ else _)
      split
      · exact .ok ⟨.intro mods buffs hMods hBuffs, hDistinct⟩
      · exact .ok ⟨.intro mods (buffs ++ [buff]) hMods (hBuffs.append_right _), hDistinct⟩

theorem Scenario.Reordered.addBuff {s s' : Scenario K} (h : s.Reordered s') (item : BuffItem K) :
    Agree Scenario.Reordered (s.addBuff item) (s'.addBuff item) := by
  unfold Scenario.addBuff
  rw [h.build.hasBuff]
  split
  · exact .ok h
  · have hAdded := h.build.addBuff h.distinct item.name item.level
    generalize s.build.addBuff item.name item.level = x at hAdded
    generalize s'.build.addBuff item.name item.level = x' at hAdded
    cases hAdded with
    | ok hAdded => exact .ok ⟨hAdded.1, congrArg (· ++ [item.name]) h.added, hAdded.2⟩
    | error e => exact .error e

theorem Reordered.scenario (h : b.Reordered b') (hDistinct : b.equipment.Distinct) (t : Timeline K)
    (a : ActionItem K) : Agree Scenario.Reordered (b.scenario t a) (b'.scenario t a) := by
  have hStart : Scenario.Reordered (K := K) ⟨{ b with timeline := none, actionName := a.name }, []⟩
      ⟨{ b' with timeline := none, actionName := a.name }, []⟩ := by
    obtain ⟨mods, buffs, hMods, hBuffs⟩ := h
    exact ⟨.intro mods buffs hMods hBuffs, rfl, hDistinct⟩
  exact agree_foldlM (fun s s' item hs => hs.addBuff item) hStart _

end

section

variable {K : Type} [ExactNumber K] {b b' : Build K}

theorem Reordered.playAction (h : b.Reordered b') (hDistinct : b.equipment.Distinct) (t : Timeline K)
    (enemy : Enemy K) (a : ActionItem K) : b'.playAction t enemy a = b.playAction t enemy a := by
  unfold Build.playAction
  refine ((h.scenario hDistinct t a).bind_eq fun s s' hs => ?_).symm
  obtain ⟨x, added⟩ := s
  obtain ⟨x', added'⟩ := s'
  obtain ⟨hBuild, hAdded, hDistinct⟩ := hs
  have hScene : x'.scene = x.scene.withBuild x' := hBuild.scene_eq hDistinct
  cases hAdded
  dsimp only
  rw [hScene]
  -- Beside its scene, an action reads only what reordered builds share.
  cases hBuild
  rfl

theorem Reordered.playAll (h : b.Reordered b') (hDistinct : b.equipment.Distinct) (t : Timeline K)
    (enemy : Enemy K) (items : List (ActionItem K)) :
    b'.playAll t enemy items = b.playAll t enemy items := by
  induction items generalizing enemy with
  | nil => rfl
  | cons a rest ih =>
    unfold Build.playAll
    rw [h.playAction hDistinct]
    simp only [ih]

theorem Reordered.replay (h : b.Reordered b') (hDistinct : b.equipment.Distinct) (t : Timeline K) :
    b'.replay t = b.replay t := by
  have hAll := h.playAll hDistinct t
  obtain ⟨mods, buffs, -, -⟩ := h
  unfold Build.replay
  dsimp only
  rw [hAll]

theorem Reordered.score (h : b.Reordered b') (hDistinct : b.equipment.Distinct) :
    b'.score = b.score := by
  have hFormula := h.formulaScore hDistinct
  have hReplay := h.replay hDistinct
  obtain ⟨mods, buffs, -, -⟩ := h
  unfold Build.score
  simp only [hFormula, hReplay]

/-- Whatever was done to a build, the order of its mods and of its static buffs makes no difference to its
attributes, extras, active conditionals and passes, to the stats of any weapon, or to its score. -/
theorem Reordered.results_eq {d : Database K} (hIndexed : d.Indexed) {settings : Settings K}
    {options : BuildOptions K} {start : Build K} (h : ofOptions d settings options = .ok start)
    (changes : List (Change K)) (hb : start.runAll changes = b) (hReordered : b.Reordered b') :
    b'.settle = b.settle ∧ (∀ w, b'.weaponStats w = b.weaponStats w) ∧ b'.score = b.score := by
  subst hb
  have hWell := (ensures_ofOptions d settings options start h).runAll changes
  have hDistinct := (builtOn_runAll hIndexed h changes).distinct hWell
  exact ⟨hReordered.settle hDistinct, hReordered.weaponStats hDistinct, hReordered.score hDistinct⟩

end

/-! ## Mods that never settle -/

section

open scoped Exact

def fencer : CharacterRecord ℚ where
  id := 1
  name := "测试"
  element := "光"
  attack := 300
  health := 1000
  shield := 100
  defense := 50
  sanity := 200
  bonuses := .empty
  skills := []
  resonanceWeapon := none

def rapier : WeaponRecord ℚ where
  id := 2
  name := "刀"
  kind := .melee
  category := "太刀"
  damageType := "斩击"
  attack := 100
  critRate := 1 / 5
  critDamage := 2
  triggerRate := 1 / 10
  multiplier := 1
  fireRate := none
  magazine := none
  reload := none
  bonuses := .empty
  skills := []
  baseMultiplier := none

/-- A mod for melee weapons that adds to the power while a condition holds. -/
def surge (id : Nat) (name : String) (condition : ConditionRecord ℚ) (power : ℚ) : ModRecord ℚ where
  id := id
  name := name
  series := "狮鹫"
  quality := .gold
  tolerance := 10
  category := .melee
  polarity := some "A"
  element := none
  restriction := none
  exclusive := false
  bonuses := .empty
  conditional := some ⟨[condition], Bonuses.empty.add (.character .power) power⟩

/-- A buff that adds to the power and strengthens the mods. -/
def cheer (name : String) (power : ℚ) : BuffRecord ℚ where
  name := name
  description := ""
  bonuses := (Bonuses.empty.add (.character .power) power).add (.character .modAttribute) power
  a := none
  b := none
  defaultLevel := none
  minLevel := none
  maxLevel := none
  script := none

/-- The first mod takes away the reason for its own bonus, the second one counts mods. -/
def duel : Database ℚ where
  characters := .ofList [("测试", fencer)]
  charactersById := .ofList [(1, fencer)]
  weapons := .ofList [("刀", rapier)]
  weaponsById := .ofList [(2, rapier)]
  mods := Database.index (·.id)
    [surge 4 "起伏" ⟨"威力", .lt, 6 / 5⟩ (1 / 2), surge 5 "同心" ⟨"A", .ge, 2⟩ (1 / 10)]
  buffs := Database.index (·.name) [cheer "鼓舞" (1 / 100), cheer "激励" (1 / 50)]
  monsters := .empty
  effects := .empty
  multipliers := .empty

/-- Options with a mod that stands in the aura as well. -/
def dueling : BuildOptions ℚ :=
  { BuildOptions.default with
    character := "测试"
    melee := "刀"
    ranged := "刀"
    mods := ⟨[], [⟨5, none⟩], [], []⟩
    aura := some ⟨4, none⟩
    buffs := [⟨"鼓舞", none⟩]
    target := some "威力" }

theorem indexed_duel : duel.Indexed := fun _ _ hr =>
  Database.key_eq_of_find?_index (Database.find?_of_mod_eq_ok hr)

/-- A build with its mods and its static buffs the other way round. -/
def turned (b : Build ℚ) : Build ℚ :=
  { b with mods := b.mods.map List.reverse, buffs := b.buffs.reverse }

theorem reordered_turned (b : Build ℚ) : b.Reordered b.turned := by
  refine .intro _ _ (fun c => ?_) (List.reverse_perm _).symm
  rw [PerCategory.get_map]
  exact (List.reverse_perm _).symm

/-- What is done to the build that they describe. -/
def provoked : List (Change ℚ) := [.equip 4 none, .addBuff "激励" none]

/-- The first mod, in its place and in the aura, is switched on and off until no pass is left. The score is
the same whichever way round the mods and the buffs stand. -/
theorem results_eq_turned : ∃ start, ofOptions duel .default dueling = .ok start ∧
    duel.Indexed ∧ (start.runAll provoked).Reordered (start.runAll provoked).turned ∧
      (start.runAll provoked).turned.settle = (start.runAll provoked).settle ∧
      (∀ w, (start.runAll provoked).turned.weaponStats w = (start.runAll provoked).weaponStats w) ∧
      (start.runAll provoked).turned.score = (start.runAll provoked).score ∧
      (start.runAll provoked).mods.melee.map Mod.id = [5, 4] ∧
      (start.runAll provoked).buffs.map Buff.name = ["鼓舞", "激励"] ∧
      (start.runAll provoked).settle.active = ["狮鹫之起伏", "狮鹫之起伏", "狮鹫之同心"] ∧
      (start.runAll provoked).settle.passes = 3 ∧ (start.runAll provoked).settle.converged = false ∧
      (start.runAll provoked).score = 2163 / 1000 := by
  have hStart : ofOptions duel .default dueling = .ok _ := rfl
  obtain ⟨hSettle, hStats, hScore⟩ :=
    Reordered.results_eq indexed_duel hStart provoked rfl (reordered_turned _)
  exact ⟨_, hStart, indexed_duel, reordered_turned _, hSettle, hStats, hScore, by decide +kernel⟩

end

end Build

end Loadout
