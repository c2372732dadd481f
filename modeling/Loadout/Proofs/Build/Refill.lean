import Loadout.Proofs.Build.Traced

/-!
# Options that say what a build holds

A build comes from options in two strokes. What follows from the character, the weapons and the enemy is put
in place at once (`bare`). The mods, the aura and the buffs then come one by one, and change nothing else
(`SameFrame`). Mods are checked as they come, but mods that a well-formed build holds pass every check when
they come in the order in which they stand. So options that choose what a well-formed build holds lead to it
(`ofOptions_eq_ok`).

* `bare_eq_ok_iff`: the first stroke;
* `equipAll_eq_ok`, `addBuffs_eq_ok`: the second stroke;
* `exists_bare_of_ofOptions`, `ofOptions_eq_ok`: from a build to the strokes, and from the strokes to a build.
-/

namespace Loadout

variable {K : Type}

/-! ## What the checks depend on -/

theorem exists_mem_of_records {ms ns : List (Mod K)} (h : ns.map Mod.record = ms.map Mod.record) {n : Mod K}
    (hn : n ∈ ns) : ∃ m ∈ ms, m.record = n.record := by
  have hMem := List.mem_map_of_mem (f := Mod.record) hn
  rw [h] at hMem
  exact List.mem_map.mp hMem

theorem ModCategory.Holds.congr {c : ModCategory} {ms ns : List (Mod K)} (h : c.Holds ms)
    (hRecords : ns.map Mod.record = ms.map Mod.record) : c.Holds ns where
  length_le := by
    have hLength := congrArg List.length hRecords
    rw [List.length_map, List.length_map] at hLength
    exact hLength ▸ h.length_le
  category_eq n hn := by
    obtain ⟨m, hm, hRecord⟩ := exists_mem_of_records hRecords hn
    rw [Mod.category, ← hRecord]
    exact h.category_eq m hm
  apart := by
    have hApart := h.apart
    rw [← List.pairwise_map (R := ModRecord.Apart), ← hRecords] at hApart
    exact List.pairwise_map.mp hApart

namespace Build

variable {b b' : Build K}

theorem fits_congr (hCharacter : b'.character.record = b.character.record)
    (hMelee : b'.melee.record = b.melee.record) (hRanged : b'.ranged.record = b.ranged.record)
    (hResonance : b'.resonance.map Weapon.record = b.resonance.map Weapon.record) :
    b'.fits = b.fits := by
  have hWeapons (c : ModCategory) : (b'.restrictingWeapons c).map Weapon.record =
      (b.restrictingWeapons c).map Weapon.record := by
    have hList := congrArg Option.toList hResonance
    rw [Option.toList_map, Option.toList_map] at hList
    cases c <;> simp [restrictingWeapons, weapons, wielded, Function.comp_def, hMelee, hRanged, hList]
  funext r
  have hAny (category : String) :
      ((b'.restrictingWeapons r.category).any fun w => w.record.category == category) =
        (b.restrictingWeapons r.category).any fun w => w.record.category == category := by
    have h := congrArg (List.any · fun record => record.category == category) (hWeapons r.category)
    rwa [List.any_map, List.any_map] at h
  simp only [fits, hCharacter, hAny]

/-- A build is as well formed as one with mods of the same records that the same mods fit. -/
theorem WellFormed.of_records (h : b.WellFormed) (hFits : b'.fits = b.fits)
    (hRecords : ∀ c, (b'.mods.get c).map Mod.record = (b.mods.get c).map Mod.record) :
    b'.WellFormed where
  holds c := (h.holds c).congr (hRecords c)
  fits c n hn := by
    obtain ⟨m, hm, hRecord⟩ := exists_mem_of_records (hRecords c) hn
    rw [hFits, ← hRecord]
    exact h.fits c m hm

/-- The mods of a category are found again among those of all categories. -/
theorem filter_flatMap_get {p : PerCategory (List (Mod K))}
    (h : ∀ c, ∀ m ∈ p.get c, m.category = c) (c : ModCategory) :
    ((ModCategory.all.flatMap p.get).filter fun m => m.category = c) = p.get c := by
  have hFilter (c' : ModCategory) :
      ((p.get c').filter fun m => m.category = c) = if c' = c then p.get c' else [] := by
    split
    · next hc => exact List.filter_eq_self.mpr fun m hm => decide_eq_true ((h c' m hm).trans hc)
    · next hc =>
      exact List.filter_eq_nil_iff.mpr fun m hm hEq => hc ((h c' m hm).symm.trans (of_decide_eq_true hEq))
  cases c <;> simp [ModCategory.all, hFilter]

/-- One build has everything of another one but its mods, its aura and its buffs. -/
def SameFrame (b x : Build K) : Prop :=
  x = { b with mods := x.mods, aura := x.aura, buffs := x.buffs, dynamicBuffs := x.dynamicBuffs }

theorem SameFrame.refl (b : Build K) : b.SameFrame b := rfl

theorem SameFrame.replace {b x : Build K} (h : b.SameFrame x) (mods : PerCategory (List (Mod K)))
    (aura : Option (Mod K)) (buffs dynamicBuffs : List (Buff K)) : b.SameFrame
      { x with mods := mods, aura := aura, buffs := buffs, dynamicBuffs := dynamicBuffs } := by
  rw [SameFrame] at h
  rw [h]
  rfl

end Build

variable [Number K]

/-- The mods, the aura and the buffs that options choose are those that a build has. -/
structure BuildOptions.Chooses (o : BuildOptions K) (d : Database K) (b : Build K) : Prop where
  mods : ∀ c, List.Forall₂ (fun choice m => choice.Makes d m) (o.mods.get c) (b.mods.get c)
  aura : Option.Rel (fun choice m => choice.Makes d m) o.aura b.aura
  buffs : List.Forall₂ (fun choice f => choice.Makes d f) o.buffs b.buffs
  dynamicBuffs : List.Forall₂ (fun choice f => choice.Makes d f) o.dynamicBuffs b.dynamicBuffs
  isDynamic_buffs : ∀ f ∈ b.buffs, f.isDynamic = false
  isDynamic_dynamicBuffs : ∀ f ∈ b.dynamicBuffs, f.isDynamic = true

namespace Build

variable {b b₀ : Build K} {d : Database K} {settings : Settings K} {o : BuildOptions K}

/-! ## One by one -/

theorem equip_eq_ok {id : Nat} {rank : Option Nat} {m : Mod K}
    (hMakes : (⟨id, rank⟩ : ModChoice).Makes b.database m)
    (hHolds : m.category.Holds (b.mods.get m.category ++ [m])) (hFits : b.fits m.record = true) :
    b.equip id rank =
      .ok { b with mods := b.mods.set m.category (b.mods.get m.category ++ [m]) } := by
  have hRoom : ¬ m.record.category.cap ≤ (b.mods.get m.record.category).length := by
    have hLength := hHolds.length_le
    rw [List.length_append, List.length_singleton] at hLength
    exact Nat.not_le_of_lt hLength
  have hAdmits : (b.exclusion m.record.category).admits m.record = true := by
    rw [exclusion, (Exclusion.describes_ofMods _).admits_iff]
    intro r hr
    obtain ⟨n, hn, rfl⟩ := List.mem_map.mp hr
    exact (List.pairwise_append.mp hHolds.apart).2.2 n hn m (List.mem_singleton_self m)
  rw [equip, hMakes.record]
  change (if _ then _ else _) = _
  rw [if_neg hRoom, hAdmits, hFits]
  change (Mod.ofRecord _ _ _ >>= _) = _
  rw [hMakes.ofRecord]
  rfl

/-- Mods that some categories can hold are equipped one after another, each in its category. -/
theorem equipAll_eq_ok {choices : List ModChoice} {ms : List (Mod K)} {p : PerCategory (List (Mod K))}
    (hDatabase : b.database = d)
    (hMakes : List.Forall₂ (fun choice m => choice.Makes d m) choices ms)
    (hp : ∀ c, p.get c = b.mods.get c ++ ms.filter fun m => m.category = c)
    (hHolds : ∀ c : ModCategory, c.Holds (p.get c)) (hFits : ∀ m ∈ ms, b.fits m.record = true) :
    b.equipAll choices = .ok { b with mods := p } := by
  induction hMakes generalizing b with
  | nil =>
    have hMods : p = b.mods := PerCategory.ext_get fun c => (hp c).trans (List.append_nil _)
    rw [hMods]
    rfl
  | @cons choice m choices rest hHead hRest ih =>
    have hOwn : p.get m.category =
        b.mods.get m.category ++ [m] ++ rest.filter fun n => n.category = m.category := by
      rw [hp, List.filter_cons_of_pos (by simp), List.append_assoc, List.singleton_append]
    have hStep := equip_eq_ok (hDatabase ▸ hHead)
      ((hHolds m.category).sublist (hOwn ▸ List.sublist_append_left _ _)) (hFits m List.mem_cons_self)
    rw [equipAll, List.foldlM_cons, hStep]
    refine ih hDatabase (fun c => ?_) fun n hn => hFits n (List.mem_cons_of_mem _ hn)
    by_cases hc : m.category = c
    · subst hc
      rw [hOwn, PerCategory.get_set_self]
    · rw [hp, PerCategory.get_set_of_ne _ hc, List.filter_cons_of_neg (by simpa using hc)]

theorem addBuff_eq_ok {name : String} {level : Option Nat} {f : Buff K}
    (hMakes : (⟨name, level⟩ : BuffChoice).Makes b.database f) :
    b.addBuff name level = .ok { b with
      buffs := b.buffs ++ [f].filter fun f => !f.isDynamic
      dynamicBuffs := b.dynamicBuffs ++ [f].filter fun f => f.isDynamic } := by
  rw [addBuff, hMakes.record]
  change (Buff.ofRecord _ _ >>= _) = _
  rw [hMakes.ofRecord]
  change (if f.isDynamic = true then _ else _) = _
  cases hDynamic : f.isDynamic <;> simp [hDynamic] <;> rfl

/-- Buffs are added one after another, those with a script apart from the others. -/
theorem addBuffs_eq_ok {choices : List BuffChoice} {fs : List (Buff K)} (hDatabase : b.database = d)
    (hMakes : List.Forall₂ (fun choice f => choice.Makes d f) choices fs) :
    b.addBuffs choices = .ok { b with
      buffs := b.buffs ++ fs.filter fun f => !f.isDynamic
      dynamicBuffs := b.dynamicBuffs ++ fs.filter fun f => f.isDynamic } := by
  induction hMakes generalizing b with
  | nil =>
    rw [List.filter_nil, List.filter_nil, List.append_nil, List.append_nil]
    rfl
  | @cons choice f choices rest hHead hRest ih =>
    rw [addBuffs, List.foldlM_cons, addBuff_eq_ok (hDatabase ▸ hHead)]
    change addBuffs _ choices = _
    rw [ih]
    · simp only [List.append_assoc, ← List.filter_append, List.singleton_append]
    · exact hDatabase

theorem setAura_eq_ok {choice : ModChoice} {m : Mod K} (hMakes : choice.Makes b.database m) :
    b.setAura (some choice) = .ok { b with aura := some m } := by
  change (b.database.mod choice.id >>= _) = _
  rw [hMakes.record]
  change (Mod.ofRecord _ _ _ >>= _) = _
  rw [hMakes.ofRecord]
  rfl

/-! ## The two strokes -/

/-- What is in place before the mods, the aura and the buffs come. -/
theorem bare_eq_ok_iff : bare d settings o = .ok b ↔ ∃ record melee ranged resonance enemy,
    d.character o.character = .ok record ∧
    loadWeapon d o.melee o.meleeRefine o.meleeLevel = .ok melee ∧
    loadWeapon d o.ranged o.rangedRefine o.rangedLevel = .ok ranged ∧
    loadResonance d record o = .ok resonance ∧ loadEnemy d o.enemy = .ok enemy ∧
    o.timeline.forM (checkTimeline d) = .ok () ∧ {
      database := d
      settings := settings
      character := .ofRecord record o.characterLevel
      skills := record.skills.map fun s => .ofRecord s o.skillLevel none
      melee := melee
      ranged := ranged
      resonance := resonance
      mods := .same []
      aura := none
      buffs := []
      dynamicBuffs := []
      enemy := enemy
      health := Number.clamp o.health 0.0 1.0
      resonanceGain := o.resonanceGain
      actionName := o.action
      target := o.target.getD settings.defaultTarget
      timeline := o.timeline } = b := by
  simp only [bare, bind_eq_ok_iff]
  constructor
  · rintro ⟨record, hCharacter, melee, hMelee, ranged, hRanged, resonance, hResonance, enemy, hEnemy, ⟨⟩,
      hTimeline, h⟩
    cases h
    exact ⟨record, melee, ranged, resonance, enemy, hCharacter, hMelee, hRanged, hResonance, hEnemy,
      hTimeline, rfl⟩
  · rintro ⟨record, melee, ranged, resonance, enemy, hCharacter, hMelee, hRanged, hResonance, hEnemy,
      hTimeline, rfl⟩
    exact ⟨record, hCharacter, melee, hMelee, ranged, hRanged, resonance, hResonance, enemy, hEnemy, (),
      hTimeline, rfl⟩

/-- The mods, the aura and the buffs change nothing else. -/
theorem exists_bare_of_ofOptions (h : ofOptions d settings o = .ok b) :
    ∃ b₀, bare d settings o = .ok b₀ ∧ b₀.SameFrame b := by
  have hStart : Ensures (bare d settings o) fun x => ∃ b₀, bare d settings o = .ok b₀ ∧ b₀.SameFrame x :=
    fun b₀ hBare => ⟨b₀, hBare, .refl b₀⟩
  refine ensures_ofOptions_of_steps ?_ ?_ ?_ hStart b h
  · rintro x id rank ⟨b₀, hBare, hFrame⟩ y hEquip
    obtain ⟨r, m, -, -, -, rfl⟩ := ensures_equip x id rank y hEquip
    exact ⟨b₀, hBare, hFrame.replace _ x.aura x.buffs x.dynamicBuffs⟩
  · rintro x choice ⟨b₀, hBare, hFrame⟩
    have hAura (aura : Option (Mod K)) : b₀.SameFrame { x with aura := aura } :=
      hFrame.replace x.mods aura x.buffs x.dynamicBuffs
    cases choice with
    | none => exact ensures_ok ⟨b₀, hBare, hAura none⟩
    | some choice =>
      exact (ensures_anything _).bind fun r _ => (ensures_anything _).bind fun m _ =>
        ensures_ok ⟨b₀, hBare, hAura (some m)⟩
  · rintro x name level ⟨b₀, hBare, hFrame⟩
    refine (ensures_anything _).bind fun r _ => (ensures_anything _).bind fun f _ => ?_
    split
    · exact ensures_ok ⟨b₀, hBare, hFrame.replace x.mods x.aura x.buffs _⟩
    · exact ensures_ok ⟨b₀, hBare, hFrame.replace x.mods x.aura _ x.dynamicBuffs⟩

/-- The mods of a well-formed build can be equipped from nothing. -/
theorem equipAll_of_wellFormed {mods : PerCategory (List ModChoice)} (hDatabase : b₀.database = d)
    (hEmpty : b₀.mods = .same []) (hFits : b₀.fits = b.fits)
    (hMakes : ∀ c, List.Forall₂ (fun choice m => choice.Makes d m) (mods.get c) (b.mods.get c))
    (hWell : b.WellFormed) :
    b₀.equipAll (ModCategory.all.flatMap mods.get) = .ok { b₀ with mods := b.mods } := by
  have hAll : List.Forall₂ (fun choice m => choice.Makes d m) (ModCategory.all.flatMap mods.get)
      (ModCategory.all.flatMap b.mods.get) := by
    refine List.rel_flatMap (R := Eq) ?_ fun c c' hc => hc ▸ hMakes c
    rw [List.forall₂_eq_eq_eq]
  refine equipAll_eq_ok hDatabase hAll (fun c => ?_) hWell.holds fun m hm => ?_
  · rw [hEmpty, PerCategory.get_same, filter_flatMap_get (fun c => (hWell.holds c).category_eq) c,
      List.nil_append]
  · obtain ⟨c, -, hm⟩ := List.mem_flatMap.mp hm
    exact hFits ▸ hWell.fits c m hm

/-- Buffs that stand apart come to stand where they did. -/
theorem addBuffs_of_apart {x : Build K} {choices dynamicChoices : List BuffChoice}
    {fs dynamicFs : List (Buff K)} (hDatabase : x.database = d)
    (hMakes : List.Forall₂ (fun choice f => choice.Makes d f) choices fs)
    (hDynamicMakes : List.Forall₂ (fun choice f => choice.Makes d f) dynamicChoices dynamicFs)
    (hFs : ∀ f ∈ fs, f.isDynamic = false) (hDynamicFs : ∀ f ∈ dynamicFs, f.isDynamic = true) :
    x.addBuffs (choices ++ dynamicChoices) =
      .ok { x with buffs := x.buffs ++ fs, dynamicBuffs := x.dynamicBuffs ++ dynamicFs } := by
  have hStatic : (fs ++ dynamicFs).filter (fun f => !f.isDynamic) = fs := by
    rw [List.filter_append, List.filter_eq_self.mpr fun f hf => by simp [hFs f hf],
      List.filter_eq_nil_iff.mpr fun f hf => by simp [hDynamicFs f hf], List.append_nil]
  have hDynamic : (fs ++ dynamicFs).filter (fun f => f.isDynamic) = dynamicFs := by
    rw [List.filter_append, List.filter_eq_nil_iff.mpr fun f hf => by simp [hFs f hf],
      List.filter_eq_self.mpr hDynamicFs, List.nil_append]
  rw [addBuffs_eq_ok hDatabase (List.rel_append hMakes hDynamicMakes), hStatic, hDynamic]

/-- Options that choose what a well-formed build has lead to it. -/
theorem ofOptions_eq_ok (hBare : bare d settings o = .ok b₀) (hFrame : b₀.SameFrame b)
    (hChooses : o.Chooses d b) (hWell : b.WellFormed) : ofOptions d settings o = .ok b := by
  obtain ⟨record, melee, ranged, resonance, enemy, -, -, -, -, -, -, hStart⟩ := bare_eq_ok_iff.mp hBare
  have hDatabase : b₀.database = d := hStart ▸ rfl
  have hFits : b₀.fits = b.fits := by
    rw [hFrame]
    rfl
  have hMods := equipAll_of_wellFormed hDatabase (hStart ▸ rfl) hFits hChooses.mods hWell
  have hBuffs (x : Build K) (hx : x = { b₀ with mods := b.mods, aura := b.aura }) :
      x.addBuffs (o.buffs ++ o.dynamicBuffs) = .ok b := by
    rw [addBuffs_of_apart (hx ▸ hDatabase) hChooses.buffs hChooses.dynamicBuffs hChooses.isDynamic_buffs
      hChooses.isDynamic_dynamicBuffs, hx, ← hStart]
    rw [SameFrame, ← hStart] at hFrame
    exact congrArg _ hFrame.symm
  rw [ofOptions, hBare]
  change (equipAll _ _ >>= _) = _
  rw [hMods]
  have hAura := hChooses.aura
  generalize hChoice : o.aura = choice, hResult : b.aura = aura at hAura
  cases hAura with
  | none =>
    refine hBuffs _ ?_
    rw [hResult, ← hStart]
  | some hMakes =>
    change (setAura _ _ >>= _) = _
    rw [setAura_eq_ok (hDatabase ▸ hMakes)]
    refine hBuffs _ ?_
    rw [hResult]

end Build

end Loadout
