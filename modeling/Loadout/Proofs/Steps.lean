import Mathlib.Data.List.Forall2

/-!
# Steps that may fail

What is known when a computation in several steps has succeeded: each of its steps has, with the values that
the steps after it were given. When it has failed, one of its steps has, and those before it have not.

* `bind_eq_ok_iff`, `bind_eq_error_iff`: two steps;
* `mapM_eq_ok_iff_forall₂`, `mapM_eq_ok_iff`, `mapM_eq_error_iff`: a row of steps;
* `forM_eq_ok_iff`, `exists_of_forM_eq_error`: a row of checks.
-/

namespace Loadout

variable {ε α β : Type}

theorem bind_eq_ok_iff {x : Except ε α} {f : α → Except ε β} {b : β} :
    (x >>= f) = .ok b ↔ ∃ a, x = .ok a ∧ f a = .ok b := by
  cases x with
  | error e => exact ⟨fun h => (by cases h), fun ⟨_, h, _⟩ => (by cases h)⟩
  | ok a =>
    refine ⟨fun h => ⟨a, rfl, h⟩, ?_⟩
    rintro ⟨a', hEq, h⟩
    cases hEq
    exact h

/-- A step of which a value is made. -/
theorem bind_pure_eq_ok_iff {x : Except ε α} {f : α → β} {b : β} :
    (do return f (← x)) = Except.ok b ↔ ∃ a, x = .ok a ∧ f a = b := by
  rw [bind_eq_ok_iff]
  exact exists_congr fun a => and_congr_right fun _ => iff_of_eq (Except.ok.injEq (f a) b)

/-- A row of steps succeeds when each of them does. -/
theorem mapM_eq_ok_iff_forall₂ {f : α → Except ε β} {as : List α} {bs : List β} :
    as.mapM f = .ok bs ↔ List.Forall₂ (fun a b => f a = .ok b) as bs := by
  induction as generalizing bs with
  | nil =>
    rw [List.mapM_nil, List.forall₂_nil_left_iff]
    exact ⟨fun h => (by cases h; rfl), fun h => h ▸ rfl⟩
  | cons a rest ih =>
    rw [List.mapM_cons, bind_eq_ok_iff, List.forall₂_cons_left_iff]
    constructor
    · rintro ⟨b, hStep, h⟩
      obtain ⟨bs', hRest, h⟩ := bind_eq_ok_iff.mp h
      cases h
      exact ⟨b, bs', hStep, ih.mp hRest, rfl⟩
    · rintro ⟨b, bs', hStep, hRest, rfl⟩
      exact ⟨b, hStep, bind_eq_ok_iff.mpr ⟨bs', ih.mpr hRest, rfl⟩⟩

theorem forall₂_and_map_iff {P : α → Prop} {g : α → β} {as : List α} {bs : List β} :
    List.Forall₂ (fun a b => P a ∧ g a = b) as bs ↔ (∀ a ∈ as, P a) ∧ as.map g = bs := by
  rw [List.forall₂_and_left, ← List.forall₂_eq_eq_eq, List.forall₂_map_left_iff]

/-- A row of steps each of which gives a known value or fails. -/
theorem mapM_eq_ok_iff {f : α → Except ε β} {P : α → Prop} {g : α → β}
    (hStep : ∀ a b, f a = .ok b ↔ P a ∧ g a = b) {as : List α} {bs : List β} :
    as.mapM f = .ok bs ↔ (∀ a ∈ as, P a) ∧ as.map g = bs := by
  simp only [mapM_eq_ok_iff_forall₂, hStep, forall₂_and_map_iff]

/-! ## Steps that fail -/

theorem bind_eq_error_iff {x : Except ε α} {f : α → Except ε β} {e : ε} :
    (x >>= f) = .error e ↔ x = .error e ∨ ∃ a, x = .ok a ∧ f a = .error e := by
  cases x with
  | error e' =>
    rw [or_iff_left fun ⟨_, h, _⟩ => by cases h]
    exact ⟨fun h => congrArg _ (Except.error.inj h), fun h => congrArg _ (Except.error.inj h)⟩
  | ok a =>
    refine ⟨fun h => .inr ⟨a, rfl, h⟩, ?_⟩
    rintro (h | ⟨a', hEq, h⟩)
    · cases h
    · cases hEq
      exact h

/-- A step of which a value is made fails when it fails. -/
theorem bind_pure_eq_error_iff {x : Except ε α} {f : α → β} {e : ε} :
    (do return f (← x)) = Except.error e ↔ x = .error e := by
  rw [bind_eq_error_iff, or_iff_left]
  rintro ⟨a, -, h⟩
  cases h

/-- A row of steps fails as the first of them that fails. -/
theorem mapM_eq_error_iff {f : α → Except ε β} {as : List α} {e : ε} :
    as.mapM f = .error e ↔ ∃ before a after, as = before ++ a :: after ∧
      (∀ x ∈ before, ∃ b, f x = .ok b) ∧ f a = .error e := by
  induction as with
  | nil =>
    rw [List.mapM_nil]
    constructor
    · intro h
      cases h
    · rintro ⟨before, a, after, hSplit, -⟩
      simp at hSplit
  | cons a rest ih =>
    rw [List.mapM_cons, bind_eq_error_iff]
    simp only [bind_pure_eq_error_iff, ih]
    constructor
    · rintro (h | ⟨b, hb, before, a', after, rfl, hBefore, h⟩)
      · exact ⟨[], a, rest, rfl, List.forall_mem_nil _, h⟩
      · exact ⟨a :: before, a', after, rfl, List.forall_mem_cons.mpr ⟨⟨b, hb⟩, hBefore⟩, h⟩
    · rintro ⟨before, a', after, hSplit, hBefore, h⟩
      cases before with
      | nil =>
        cases hSplit
        exact .inl h
      | cons x before =>
        cases hSplit
        obtain ⟨⟨b, hb⟩, hBefore⟩ := List.forall_mem_cons.mp hBefore
        exact .inr ⟨b, hb, before, a', after, rfl, hBefore, h⟩

/-- A row of checks passes when each of them does. -/
theorem forM_eq_ok_iff {check : α → Except ε Unit} {as : List α} :
    forM as check = .ok () ↔ ∀ a ∈ as, check a = .ok () := by
  induction as with
  | nil => exact iff_of_true rfl (List.forall_mem_nil _)
  | cons a rest ih =>
    rw [List.forM_cons, bind_eq_ok_iff, List.forall_mem_cons, ← ih]
    exact ⟨fun ⟨⟨⟩, hHead, hRest⟩ => ⟨hHead, hRest⟩, fun ⟨hHead, hRest⟩ => ⟨(), hHead, hRest⟩⟩

theorem exists_of_forM_eq_error {check : α → Except ε Unit} {as : List α} {e : ε}
    (h : forM as check = .error e) : ∃ a ∈ as, check a = .error e := by
  induction as with
  | nil => cases h
  | cons a rest ih =>
    rw [List.forM_cons, bind_eq_error_iff] at h
    rcases h with hHead | ⟨⟨⟩, -, hRest⟩
    · exact ⟨a, List.mem_cons_self, hHead⟩
    · obtain ⟨a', ha', hError⟩ := ih hRest
      exact ⟨a', List.mem_cons_of_mem a ha', hError⟩

end Loadout
