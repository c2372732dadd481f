import Loadout.Code
import Loadout.Proofs.Steps
import Mathlib.Algebra.Group.Nat.Defs
import Mathlib.Data.List.Induction

/-!
# Ids as digits

Four digits of base 36 spell every id below 36⁴ and no other, and each such id in one way. Writing an id and
reading a slot are one relation, seen from its two sides: the digits of the id stand in the slot.

* `digitValue?_eq_some_iff`: the characters of digits, and what they stand for;
* `digits_of_mapM`, `mapM_digits`: the digits of a number, where the induction takes the last digit off;
* `encodeId_eq_ok_iff`, `decodeId_eq_ok_iff`: the relation;
* `mapM_encodeId_eq_ok_iff`, `mapM_decodeId_eq_ok_iff`: the same for a row of slots.
-/

namespace Loadout.LoadoutCode

/-! ## Digits -/

/-- The characters that are digits of base 36. -/
def IsNumeral (c : Char) : Prop := c.isDigit = true ∨ c.isUpper = true

theorem isUpper_iff_toNat {c : Char} : c.isUpper = true ↔ 65 ≤ c.toNat ∧ c.toNat ≤ 90 := by
  change decide (65 ≤ c.val ∧ c.val ≤ 90) = true ↔ _
  simp [UInt32.le_iff_toNat_le]

theorem digitValue?_digitChar : ∀ d < radix, digitValue? (digitChar d) = some d := by decide

theorem isNumeral_iff {c : Char} : IsNumeral c ↔ ∃ d, digitValue? c = some d := by
  unfold IsNumeral digitValue?
  split
  · next h => exact ⟨fun _ => ⟨_, rfl⟩, fun _ => .inl h⟩
  · next h =>
    split
    · next hUpper => exact ⟨fun _ => ⟨_, rfl⟩, fun _ => .inr hUpper⟩
    · next hUpper => simp [h, hUpper]

theorem digitValue?_eq_some_iff {c : Char} {d : Nat} :
    digitValue? c = some d ↔ d < radix ∧ digitChar d = c := by
  constructor
  · intro h
    unfold digitValue? at h
    split at h
    · next hDigit =>
      obtain ⟨hLow, hHigh⟩ : 48 ≤ c.toNat ∧ c.toNat ≤ 57 := Char.isDigit_iff_toNat.mp hDigit
      cases h
      refine ⟨by rw [radix]; omega, ?_⟩
      rw [digitChar, if_pos (by omega), Nat.add_sub_cancel' hLow, Char.ofNat_toNat]
    · split at h
      · next hUpper =>
        obtain ⟨hLow, hHigh⟩ := isUpper_iff_toNat.mp hUpper
        cases h
        refine ⟨by rw [radix]; omega, ?_⟩
        rw [digitChar, if_neg (by omega), Nat.add_sub_cancel' (by omega), Char.ofNat_toNat]
      · cases h
  · rintro ⟨hd, rfl⟩
    exact digitValue?_digitChar d hd

theorem length_digits (count n : Nat) : (digits count n).length = count := by
  induction count generalizing n with
  | zero => rfl
  | succ count ih => rw [digits, List.length_append, ih, List.length_singleton]

theorem isNumeral_of_mem_digits {count n : Nat} {c : Char} (h : c ∈ digits count n) : IsNumeral c := by
  induction count generalizing n with
  | zero => cases h
  | succ count ih =>
    rw [digits, List.mem_append, List.mem_singleton] at h
    rcases h with h | rfl
    · exact ih h
    · exact isNumeral_iff.mpr ⟨_, digitValue?_digitChar _ (Nat.mod_lt _ (by decide))⟩

theorem ofDigits_append (values : List Nat) (d : Nat) :
    ofDigits (values ++ [d]) = ofDigits values * radix + d := by
  rw [ofDigits, List.foldl_append]
  rfl

/-- The digits of a number are read as the number. -/
theorem mapM_digits {count n : Nat} (h : n < radix ^ count) :
    ∃ values, (digits count n).mapM digitValue? = some values ∧ ofDigits values = n := by
  induction count generalizing n with
  | zero =>
    refine ⟨[], rfl, ?_⟩
    rw [Nat.pow_zero] at h
    rw [ofDigits, List.foldl_nil]
    omega
  | succ count ih =>
    have hRest : n / radix < radix ^ count := by
      rw [Nat.div_lt_iff_lt_mul (by decide), ← Nat.pow_succ]
      exact h
    obtain ⟨values, hValues, hRead⟩ := ih hRest
    have hLast := digitValue?_digitChar (n % radix) (Nat.mod_lt _ (by decide))
    refine ⟨values ++ [n % radix], ?_, ?_⟩
    · rw [digits, List.mapM_append, hValues]
      simp [hLast]
    · rw [ofDigits_append, hRead, Nat.mul_comm, Nat.div_add_mod]

/-- What is read as a number are the digits of the number. -/
theorem digits_of_mapM {chunk : List Char} {values : List Nat} (h : chunk.mapM digitValue? = some values) :
    ofDigits values < radix ^ chunk.length ∧ digits chunk.length (ofDigits values) = chunk := by
  induction chunk using List.reverseRecOn generalizing values with
  | nil =>
    cases h
    exact ⟨by decide, rfl⟩
  | append_singleton rest c ih =>
    simp only [List.mapM_append, List.mapM_cons, List.mapM_nil, Option.bind_eq_bind, Option.pure_def,
      Option.bind_eq_some_iff, Option.some.injEq] at h
    obtain ⟨before, hBefore, -, ⟨d, hLast, -, rfl, rfl⟩, rfl⟩ := h
    obtain ⟨hLt, hDigits⟩ := ih hBefore
    obtain ⟨hd, rfl⟩ := digitValue?_eq_some_iff.mp hLast
    rw [ofDigits_append, List.length_append, List.length_singleton, digits]
    have hDiv : (ofDigits before * radix + d) / radix = ofDigits before := by
      rw [Nat.mul_comm, Nat.mul_add_div (by decide), Nat.div_eq_of_lt hd, Nat.add_zero]
    have hMod : (ofDigits before * radix + d) % radix = d := by
      rw [Nat.mul_comm, Nat.mul_add_mod, Nat.mod_eq_of_lt hd]
    rw [hDiv, hMod, hDigits]
    refine ⟨?_, rfl⟩
    calc ofDigits before * radix + d < ofDigits before * radix + radix := by omega
      _ = (ofDigits before + 1) * radix := (Nat.succ_mul _ _).symm
      _ ≤ radix ^ rest.length * radix := Nat.mul_le_mul_right _ hLt

theorem digits_inj {count n m : Nat} (hn : n < radix ^ count) (hm : m < radix ^ count)
    (h : digits count n = digits count m) : n = m := by
  obtain ⟨values, hValues, rfl⟩ := mapM_digits hn
  obtain ⟨values', hValues', rfl⟩ := mapM_digits hm
  rw [h, hValues', Option.some.injEq] at hValues
  rw [hValues]

/-! ## Ids -/

theorem encodeId_eq_ok_iff {id : Nat} {part : List Char} :
    encodeId id = .ok part ↔ id < radix ^ width ∧ digits width id = part := by
  have hMax : maxId < id ↔ ¬ id < radix ^ width := by
    have hPow : radix ^ width = maxId + 1 := by decide
    omega
  unfold encodeId
  split
  · next h => simp [hMax.mp h]
  · next h => simp [not_not.mp (mt hMax.mpr h)]

theorem decodeId_eq_ok_iff {chunk : List Char} {slot id : Nat} :
    decodeId chunk slot = .ok id ↔ id < radix ^ chunk.length ∧ digits chunk.length id = chunk := by
  unfold decodeId
  constructor
  · intro h
    split at h
    · next values hValues =>
      cases h
      exact digits_of_mapM hValues
    · cases h
  · rintro ⟨hId, hDigits⟩
    obtain ⟨values, hValues, rfl⟩ := mapM_digits hId
    rw [hDigits] at hValues
    rw [hValues]

theorem mapM_encodeId_eq_ok_iff {ids : List Nat} {parts : List (List Char)} :
    ids.mapM encodeId = .ok parts ↔ (∀ id ∈ ids, id < radix ^ width) ∧ ids.map (digits width) = parts :=
  mapM_eq_ok_iff fun _ _ => encodeId_eq_ok_iff

/-- A row of slots is read, each under its own number, as the ids whose digits stand there. -/
theorem mapM_decodeId_eq_ok_iff {parts : List (List Char)} (hWidth : ∀ part ∈ parts, part.length = width)
    {ids : List Nat} :
    (parts.zipIdx.mapM fun (part, slot) => decodeId part slot) = .ok ids ↔
      (∀ id ∈ ids, id < radix ^ width) ∧ ids.map (digits width) = parts := by
  have hSlots : (parts.zipIdx.mapM fun (part, slot) => decodeId part slot) = .ok ids ↔
      List.Forall₂ (fun part id => id < radix ^ part.length ∧ digits part.length id = part) parts ids := by
    simp only [mapM_eq_ok_iff_forall₂, decodeId_eq_ok_iff]
    rw [← List.zipIdx_map_fst 0 parts, List.forall₂_map_left_iff]
    simp
  have hPart (part : List Char) (id : Nat) : (part.length = width ∧ id < radix ^ part.length ∧
      digits part.length id = part) ↔ id < radix ^ width ∧ digits width id = part := by
    constructor
    · rintro ⟨hLength, hId⟩
      rw [hLength] at hId
      exact hId
    · rintro ⟨hId, rfl⟩
      rw [length_digits]
      exact ⟨rfl, hId, rfl⟩
  have hSpelt : List.Forall₂ (fun part id => id < radix ^ part.length ∧ digits part.length id = part)
      parts ids ↔ List.Forall₂ (fun part id => id < radix ^ width ∧ digits width id = part) parts ids := by
    have hBoth := List.forall₂_and_left (p := fun part => part.length = width)
      (R := fun part id => id < radix ^ part.length ∧ digits part.length id = part) parts ids
    simp only [hPart] at hBoth
    exact ⟨fun h => hBoth.mpr ⟨hWidth, h⟩, fun h => (hBoth.mp h).2⟩
  rw [hSlots, hSpelt, ← forall₂_and_map_iff]
  exact ⟨List.Forall₂.flip, List.Forall₂.flip⟩

end Loadout.LoadoutCode
