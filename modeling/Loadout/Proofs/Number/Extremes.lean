import Loadout.Number.Binary
import Loadout.Proofs.Number.Order

/-!
# The greatest of some floating-point numbers and the least

A list of floating-point numbers may hold infinities and what is no number. The greatest of them is
found by their places, whatever order they come in, and what is no number counts for nothing. Numbers
that stand at one place are close to the same numbers. The order for sorting is the order of the places
on finite numbers, since a greater pattern of bits stands for a greater magnitude.

* `isGreatest_foldl`: the greatest number of a list;
* `lt_foldl_least`: what is before the least number of a list;
* `close_congr`, `close_self`: being close depends on places;
* `place_le_of_rank_le`: the order for sorting keeps places in order.
-/

namespace Loadout.Number.Binary

open Float.Model Float.Model.UnpackedFloat
open Float.Model.Format (binary64)

variable {x y z : Float}

/-! ## What is no number -/

theorem unpack_of_not_proper (h : ¬ Proper x) : x.toModel.unpack = .notANumber :=
  (stored_unpack x.toModel.toBits.toBitVec).resolve_right h

theorem compare_notANumber (f : UnpackedFloat) : f.compare .notANumber = none := by
  cases f with
  | infinity s => cases s <;> rfl
  | finite s => cases s <;> rfl
  | notANumber | zero => rfl

theorem not_lt_of_not_proper (h : ¬ Proper x) : ¬ x < y := by
  have hLt : x < y ↔ x.toModel.unpack.lt y.toModel.unpack = true := decide_eq_true_iff
  rw [hLt, unpack_of_not_proper h]
  exact Bool.false_ne_true

theorem not_lt_of_not_proper_right (h : ¬ Proper y) : ¬ x < y := by
  have hLt : x < y ↔ x.toModel.unpack.lt y.toModel.unpack = true := decide_eq_true_iff
  rw [hLt, unpack_of_not_proper h, UnpackedFloat.lt, compare_notANumber]
  exact Bool.false_ne_true

theorem not_le_of_not_proper (h : ¬ Proper x) : ¬ x ≤ y := by
  have hLe : x ≤ y ↔ x.toModel.unpack.le y.toModel.unpack = true := decide_eq_true_iff
  rw [hLe, unpack_of_not_proper h]
  exact Bool.false_ne_true

theorem not_le_of_not_proper_right (h : ¬ Proper y) : ¬ x ≤ y := by
  have hLe : x ≤ y ↔ x.toModel.unpack.le y.toModel.unpack = true := decide_eq_true_iff
  rw [hLe, unpack_of_not_proper h, UnpackedFloat.le, compare_notANumber]
  exact Bool.false_ne_true

/-- What comes before something is a number, and so is what it comes before. -/
theorem proper_of_lt (h : x < y) : Proper x ∧ Proper y :=
  ⟨by_contra fun hNone => not_lt_of_not_proper hNone h,
    by_contra fun hNone => not_lt_of_not_proper_right hNone h⟩

theorem proper_of_le (h : x ≤ y) : Proper x ∧ Proper y :=
  ⟨by_contra fun hNone => not_le_of_not_proper hNone h,
    by_contra fun hNone => not_le_of_not_proper_right hNone h⟩

theorem le_of_le_of_le (h : x ≤ y) (h' : y ≤ z) : x ≤ z := by
  obtain ⟨hx, hy⟩ := proper_of_le h
  obtain ⟨-, hz⟩ := proper_of_le h'
  exact (le_iff_place hx hz).mpr (((le_iff_place hx hy).mp h).trans ((le_iff_place hy hz).mp h'))

theorem not_lt_iff_of_proper (hx : Proper x) (hy : Proper y) : ¬ x < y ↔ y ≤ x := by
  rw [lt_iff_place hx hy, not_lt, le_iff_place hy hx]

theorem lt_of_lt_of_place_le {t : Float} (hLt : t < x) (hy : Proper y) (hLe : place x ≤ place y) :
    t < y := by
  obtain ⟨ht, hx⟩ := proper_of_lt hLt
  exact (lt_iff_place ht hy).mpr (((lt_iff_place ht hx).mp hLt).trans_le hLe)

/-- What equals itself is a number. -/
theorem beq_self_iff : (x == x) = true ↔ Proper x := by
  constructor
  · intro h
    by_contra hNone
    have hEq : (x == x) = x.toModel.unpack.beq x.toModel.unpack := rfl
    rw [hEq, unpack_of_not_proper hNone] at h
    exact Bool.false_ne_true h
  · exact fun h => (beq_iff_place h h).mpr rfl

theorem not_proper_zero_add (h : ¬ Proper x) : ¬ Proper (0.0 + x) := by
  have hAdd : 0.0 + x = .ofModel (.pack .notANumber) := by
    change Float.ofModel (.pack (UnpackedFloat.add binary64 (0.0 : Float).toModel.unpack x.toModel.unpack)) = _
    rw [unpack_of_not_proper h]
    rfl
  rw [hAdd]
  intro (hStored : Stored .notANumber)
  cases hStored with
  | finite hCanonical => cases hCanonical

/-- To add a number to zero changes it in no way that a comparison sees. -/
theorem zero_add_beq (x : Float) : (0.0 + x == x) = (x == x) := by
  by_cases h : Proper x
  · obtain ⟨hProper, hPlace⟩ := place_zero_add h
    rw [(beq_iff_place hProper h).mpr hPlace, beq_self_iff.mpr h]
  · have hEq : (0.0 + x == x) = (0.0 + x).toModel.unpack.beq x.toModel.unpack := rfl
    have hSelf : (x == x) = x.toModel.unpack.beq x.toModel.unpack := rfl
    rw [hEq, hSelf, unpack_of_not_proper h, unpack_of_not_proper (not_proper_zero_add h)]

/-! ## The greatest -/

/-- A number of a list at the greatest place; any element if there is no number in the list. -/
structure IsGreatest (xs : List Float) (best : Float) : Prop where
  mem : best ∈ xs
  le : ∀ x ∈ xs, Proper x → Proper best ∧ place x ≤ place best

theorem isGreatest_pair (x y : Float) : IsGreatest [x, y] (greatest x y) := by
  have hSelf (x : Float) (h : Proper x) : Proper x ∧ place x ≤ place x := ⟨h, le_rfl⟩
  unfold greatest
  split
  · rename_i hLt
    obtain ⟨hy, hx⟩ := proper_of_lt hLt
    have hPlace := (lt_iff_place hy hx).mp hLt
    exact ⟨List.mem_cons_self, by simp [hx, hPlace.le]⟩
  · rename_i hLt
    split
    · rename_i hEq
      have hy := beq_self_iff.mp hEq
      refine ⟨by simp, ?_⟩
      intro z hz hProper
      rcases List.mem_pair.mp hz with rfl | rfl
      · exact ⟨hy, not_lt.mp fun h => hLt ((lt_iff_place hy hProper).mpr h)⟩
      · exact hSelf _ hProper
    · rename_i hEq
      refine ⟨List.mem_cons_self, ?_⟩
      intro z hz hProper
      rcases List.mem_pair.mp hz with rfl | rfl
      · exact hSelf _ hProper
      · exact absurd (beq_self_iff.mpr hProper) hEq

theorem isGreatest_foldl (x : Float) (xs : List Float) :
    IsGreatest (x :: xs) (xs.foldl greatest x) := by
  induction xs generalizing x with
  | nil => exact ⟨List.mem_singleton_self x, by simp⟩
  | cons y rest ih =>
    obtain ⟨hMem, hLe⟩ := ih (greatest x y)
    obtain ⟨hPair, hFirst⟩ := isGreatest_pair x y
    rw [List.foldl_cons]
    refine ⟨?_, ?_⟩
    · rcases List.mem_cons.mp hMem with hEq | hRest
      · rw [hEq]
        exact List.mem_append_left rest hPair
      · exact List.mem_cons_of_mem _ (List.mem_cons_of_mem _ hRest)
    · intro z hz hProper
      rw [List.mem_cons, List.mem_cons, ← or_assoc, ← List.mem_pair] at hz
      rcases hz with hz | hz
      · obtain ⟨hProper', hLe'⟩ := hFirst z hz hProper
        obtain ⟨hBest, hLe''⟩ := hLe _ List.mem_cons_self hProper'
        exact ⟨hBest, hLe'.trans hLe''⟩
      · exact hLe z (List.mem_cons_of_mem _ hz) hProper

/-- The greatest numbers of lists that hold the same stand at one place, if there is a number. -/
theorem IsGreatest.place_eq {xs ys : List Float} (hx : IsGreatest xs x) (hy : IsGreatest ys y)
    (h : xs.Perm ys) : (Proper x ∧ Proper y ∧ place x = place y) ∨ (¬ Proper x ∧ ¬ Proper y) := by
  by_cases hProper : Proper x
  · obtain ⟨hProper', hLe⟩ := hy.le x (h.mem_iff.mp hx.mem) hProper
    obtain ⟨-, hGe⟩ := hx.le y (h.mem_iff.mpr hy.mem) hProper'
    exact .inl ⟨hProper, hProper', le_antisymm hLe hGe⟩
  · refine .inr ⟨hProper, fun hProper' => hProper ?_⟩
    exact (hx.le y (h.mem_iff.mpr hy.mem) hProper').1

/-! ## The least -/

theorem lt_least_iff {t : Float} (hx : Proper x) (hy : Proper y) :
    Proper (least x y) ∧ (t < least x y ↔ t < x ∧ t < y) := by
  unfold least
  by_cases hLt : x < y
  · have hLe : place x ≤ place y := ((lt_iff_place hx hy).mp hLt).le
    rw [if_pos hLt]
    exact ⟨hx, fun h => ⟨h, lt_of_lt_of_place_le h hy hLe⟩, And.left⟩
  · have hLe : place y ≤ place x := not_lt.mp (mt (lt_iff_place hx hy).mpr hLt)
    rw [if_neg hLt, if_pos (beq_self_iff.mpr hy)]
    exact ⟨hy, fun h => ⟨lt_of_lt_of_place_le h hx hLe, h⟩, And.right⟩

theorem least_le (h : Proper y) : least x y ≤ y := by
  unfold least
  split
  · rename_i hLt
    have hx := (proper_of_lt hLt).1
    exact (le_iff_place hx h).mpr ((lt_iff_place hx h).mp hLt).le
  · rw [if_pos (beq_self_iff.mpr h)]
    exact (le_iff_place h h).mpr le_rfl

/-- What is within a bound stays within it. -/
theorem least_le_of_le (h : x ≤ z) : least x y ≤ z := by
  obtain ⟨hx, -⟩ := proper_of_le h
  unfold least
  split
  · exact h
  · rename_i hLt
    split
    · rename_i hEq
      exact le_of_le_of_le ((not_lt_iff_of_proper hx (beq_self_iff.mp hEq)).mp hLt) h
    · exact h

/-- What is before the least of some numbers is before all of them. -/
theorem lt_foldl_least {t : Float} (hx : Proper x) {ys : List Float} (hys : ∀ y ∈ ys, Proper y) :
    Proper (ys.foldl least x) ∧ (t < ys.foldl least x ↔ t < x ∧ ∀ y ∈ ys, t < y) := by
  induction ys generalizing x with
  | nil => exact ⟨hx, by simp⟩
  | cons y rest ih =>
    obtain ⟨hLeast, hPair⟩ := lt_least_iff (t := t) hx (hys y List.mem_cons_self)
    obtain ⟨hProper, hRest⟩ := ih hLeast fun z hz => hys z (List.mem_cons_of_mem _ hz)
    refine ⟨hProper, ?_⟩
    rw [List.foldl_cons, hRest, hPair, List.forall_mem_cons, and_assoc]

theorem proper_infinity : Proper (infinity : Float) :=
  beq_self_iff.mp (by decide +kernel)

/-! ## Numbers that are close -/

theorem place_neg (h : Proper x) : Proper (-x) ∧ place (-x) = -place x := by
  have hNeg : -x = .ofModel (.pack x.toModel.unpack.neg) := rfl
  have hPlace : place x = unpackedPlace x.toModel.unpack := rfl
  rw [hNeg, hPlace]
  unfold Proper at h
  revert h
  generalize x.toModel.unpack = f
  intro h
  have hPlaceNeg : unpackedPlace f.neg = -unpackedPlace f := by
    cases f with
    | notANumber | zero => exact neg_zero.symm
    | infinity s => exact (congrArg (· * limit) (factor_neg s)).trans (neg_mul _ _)
    | finite s m e => exact (congrArg (· * _) (factor_neg s)).trans (neg_mul _ _)
  cases h with
  | infinity s =>
    obtain ⟨hProper, hEnd⟩ := place_pack_infinity (-s)
    exact ⟨hProper, hEnd.trans hPlaceNeg⟩
  | finite hCanonical hSmall =>
    have hCanonicalNeg : Canonical f.neg := by
      cases hCanonical with
      | zero s => exact .zero (-s)
      | finite s hm lt least_le le => exact .finite (-s) hm lt least_le le
    obtain ⟨hStored, hEq⟩ := unpack_pack hCanonicalNeg
    rw [cutOff_of_lt (by rwa [hPlaceNeg, abs_neg]), hPlaceNeg] at hEq
    exact ⟨hStored, hEq⟩

theorem place_size (h : Proper x) : Proper (size x) ∧ place (size x) = |place x| := by
  obtain ⟨hNeg, hPlace⟩ := place_neg h
  unfold size
  split
  · rename_i hLt
    rw [lt_iff_place h proper_zero, place_zero] at hLt
    rw [abs_of_neg hLt]
    exact ⟨hNeg, hPlace⟩
  · rename_i hLt
    rw [lt_iff_place h proper_zero, place_zero, not_lt] at hLt
    rw [abs_of_nonneg hLt]
    exact ⟨h, rfl⟩

/-- How far apart numbers may be that are close. -/
def tolerance : ℚ := place 1e-9

theorem proper_tolerance : Proper 1e-9 := proper_of_isFinite (by decide)

theorem close_eq_of_proper (h : Proper (x - y)) : close x y = decide (|place (x - y)| ≤ tolerance) := by
  obtain ⟨hSize, hPlace⟩ := place_size h
  unfold close
  rw [tolerance, ← hPlace]
  exact decide_eq_decide.mpr (le_iff_place hSize proper_tolerance)

theorem close_eq_of_not_proper (h : ¬ Proper (x - y)) : close x y = false := by
  have hSize : size (x - y) = x - y := if_neg (not_lt_of_not_proper h)
  unfold close
  rw [hSize]
  exact decide_eq_false (not_le_of_not_proper h)

theorem isFinite_iff_place (h : Proper x) : x.isFinite = true ↔ |place x| < limit := by
  refine ⟨abs_place_lt, fun hLt => ?_⟩
  by_contra hInfinite
  rcases place_of_not_isFinite h (Bool.not_eq_true _ ▸ hInfinite) with hEnd | hEnd
  · rw [hEnd, abs_of_pos limit_pos] at hLt
    exact lt_irrefl _ hLt
  · rw [hEnd, abs_neg, abs_of_pos limit_pos] at hLt
    exact lt_irrefl _ hLt

/-- An infinity is told by its place. -/
theorem unpack_eq_of_place_eq (hx : Proper x) (hy : Proper y) (h : place x = place y)
    (hInfinite : x.isFinite = false) : x.toModel.unpack = y.toModel.unpack := by
  have hInfinite' : y.isFinite = false := by
    rw [← Bool.not_eq_true, isFinite_iff_place hy, ← h, ← isFinite_iff_place hx, Bool.not_eq_true]
    exact hInfinite
  obtain ⟨s, hs⟩ := unpack_of_not_isFinite hx hInfinite
  obtain ⟨s', hs'⟩ := unpack_of_not_isFinite hy hInfinite'
  have hLimit := limit_pos
  unfold place at h
  rw [hs, hs'] at h ⊢
  cases s <;> cases s'
  · rfl
  · simp only [unpackedPlace_infinity_negative, unpackedPlace_infinity_positive] at h
    linarith
  · simp only [unpackedPlace_infinity_negative, unpackedPlace_infinity_positive] at h
    linarith
  · rfl

/-- The difference is no number if one of the two is none. -/
theorem not_proper_sub (h : ¬ Proper x ∨ ¬ Proper y) : ¬ Proper (x - y) := by
  have hSub : x - y = .ofModel (.pack (UnpackedFloat.sub binary64 x.toModel.unpack y.toModel.unpack)) :=
    rfl
  have hNone : UnpackedFloat.sub binary64 x.toModel.unpack y.toModel.unpack = .notANumber := by
    rcases h with h | h
    · rw [unpack_of_not_proper h]
      rfl
    · rw [unpack_of_not_proper h]
      cases x.toModel.unpack <;> rfl
  rw [hSub, hNone]
  intro (hStored : Stored .notANumber)
  cases hStored with
  | finite hCanonical => cases hCanonical

/-- Whatever is close to a number is close to every number at its place. -/
theorem close_congr (hx : Proper x) (hy : Proper y) (h : place x = place y) (t : Float) :
    close t x = close t y := by
  have hSub (z : Float) :
      t - z = .ofModel (.pack (UnpackedFloat.sub binary64 t.toModel.unpack z.toModel.unpack)) := rfl
  by_cases hFinite : x.isFinite = true
  · have hFinite' : y.isFinite = true := by
      rw [isFinite_iff_place hy, ← h]
      exact abs_place_lt hFinite
    by_cases hProper : Proper t
    · have hPlace : place (t - x) = place (t - y) := by
        cases hFiniteT : t.isFinite with
        | true =>
          obtain ⟨-, v, hv, hEq⟩ := place_sub hFiniteT hFinite
          obtain ⟨-, w, hw, hEq'⟩ := place_sub hFiniteT hFinite'
          rw [← h] at hw
          rw [hEq, hEq', hv.unique hw]
        | false =>
          rw [(place_sub_of_not_isFinite hProper hFiniteT hFinite).2,
            (place_sub_of_not_isFinite hProper hFiniteT hFinite').2]
      rw [close_eq_of_proper (proper_sub hProper hFinite),
        close_eq_of_proper (proper_sub hProper hFinite'), hPlace]
    · rw [close_eq_of_not_proper (not_proper_sub (.inl hProper)),
        close_eq_of_not_proper (not_proper_sub (.inl hProper))]
  · have hUnpack := unpack_eq_of_place_eq hx hy h (Bool.not_eq_true _ ▸ hFinite)
    have hSame : t - x = t - y := by rw [hSub x, hSub y, hUnpack]
    unfold close
    rw [hSame]

/-- Nothing is close to what is no number. -/
theorem close_of_not_proper (h : ¬ Proper y) : close x y = false :=
  close_eq_of_not_proper (not_proper_sub (.inr h))

theorem tolerance_nonneg : 0 ≤ tolerance := by
  have hLe : (0.0 : Float) ≤ 1e-9 := by decide
  have hPlace := (le_iff_place proper_zero proper_tolerance).mp hLe
  rwa [place_zero] at hPlace

/-- A finite number is close to itself. -/
theorem close_self (h : x.isFinite = true) : close x x = true := by
  rw [close_eq_of_proper (proper_sub (proper_of_isFinite h) h), place_sub_self h, abs_zero]
  exact decide_eq_true tolerance_nonneg

/-! ## The order for sorting -/

/-- The magnitude that a pattern of bits without its sign stands for, if it is finite. -/
def magnitude (n : ℕ) : ℚ :=
  if n / 2 ^ 52 = 0 then n * 2 ^ (-1074 : ℤ)
  else (2 ^ 52 + n % 2 ^ 52 : ℕ) * 2 ^ ((n / 2 ^ 52 : ℕ) - 1075 : ℤ)

/-- The next pattern is the next magnitude: one unit more, or the first one with the next unit. -/
theorem magnitude_le_succ (n : ℕ) : magnitude n ≤ magnitude (n + 1) := by
  have hUnit : (0 : ℚ) < 2 ^ (-1074 : ℤ) := by positivity
  unfold magnitude
  rcases (show n % 2 ^ 52 + 1 < 2 ^ 52 ∨ n % 2 ^ 52 + 1 = 2 ^ 52 by omega) with hInside | hLast
  · have hField : (n + 1) / 2 ^ 52 = n / 2 ^ 52 := by omega
    have hDigits : (n + 1) % 2 ^ 52 = n % 2 ^ 52 + 1 := by omega
    rw [hField, hDigits]
    split
    · gcongr
      exact Nat.le_succ n
    · gcongr
      omega
  · have hField : (n + 1) / 2 ^ 52 = n / 2 ^ 52 + 1 := by omega
    have hDigits : (n + 1) % 2 ^ 52 = 0 := by omega
    rw [hField, hDigits, if_neg (Nat.succ_ne_zero _)]
    split
    · rename_i hZero
      rw [hZero]
      have : (n : ℚ) ≤ ((2 ^ 52 + 0 : ℕ) : ℚ) := by
        exact_mod_cast (by omega : n ≤ 2 ^ 52 + 0)
      norm_num at this ⊢
      linarith
    · have hDouble : (2 : ℚ) ^ (((n / 2 ^ 52 + 1 : ℕ) : ℤ) - 1075) =
          2 * 2 ^ (((n / 2 ^ 52 : ℕ) : ℤ) - 1075) := by
        rw [← zpow_one_add₀ two_ne_zero]
        congr 1
        push_cast
        ring
      rw [hDouble, ← mul_assoc]
      gcongr
      have : 2 ^ 52 + n % 2 ^ 52 ≤ (2 ^ 52 + 0) * 2 := by omega
      exact_mod_cast this

theorem magnitude_mono : Monotone magnitude := monotone_nat_of_le_succ magnitude_le_succ

theorem magnitude_nonneg (n : ℕ) : 0 ≤ magnitude n := by
  unfold magnitude
  split <;> positivity

theorem toNat_unpackMantissa (b : BitVec 64) :
    BitVec.toNat (w := 52) (@unpackMantissa binary64 b) = b.toNat % 2 ^ 52 := by
  unfold unpackMantissa
  simp

theorem toNat_unpackExponent (b : BitVec 64) :
    BitVec.toNat (w := 11) (@unpackExponent binary64 b) = b.toNat / 2 ^ 52 % 2 ^ 11 := by
  unfold unpackExponent
  simp [Nat.shiftRight_eq_div_pow]

theorem toNat_unpackSign (b : BitVec 64) :
    BitVec.toNat (w := 1) (@unpackSign binary64 b) = b.toNat / 2 ^ 63 % 2 := by
  unfold unpackSign
  simp [Nat.shiftRight_eq_div_pow]

/-- A finite number has the magnitude of its bits without the sign. -/
theorem unpackedPlace_unpack (b : BitVec 64) (h : (UnpackedFloat.unpack binary64 b).isFinite = true) :
    unpackedPlace (UnpackedFloat.unpack binary64 b) =
      factor (Sign.ofBitVec (@unpackSign binary64 b)) * magnitude (b.toNat % 2 ^ 63) := by
  obtain ⟨field, hField⟩ : ∃ v : BitVec 11, v = @unpackExponent binary64 b := ⟨_, rfl⟩
  obtain ⟨digits, hDigits⟩ : ∃ v : BitVec 52, v = @unpackMantissa binary64 b := ⟨_, rfl⟩
  have hFieldNat : field.toNat = b.toNat % 2 ^ 63 / 2 ^ 52 := by
    rw [hField, toNat_unpackExponent]
    omega
  have hDigitsNat : digits.toNat = b.toNat % 2 ^ 63 % 2 ^ 52 := by
    rw [hDigits, toNat_unpackMantissa]
    omega
  have hBias : (binary64.exponentBias : ℤ) = 1023 := rfl
  unfold UnpackedFloat.unpack at h ⊢
  simp only [← hField, ← hDigits] at h ⊢
  unfold magnitude
  rw [← hFieldNat, ← hDigitsNat]
  split
  · rename_i hOnes
    rw [if_pos hOnes] at h
    split at h <;> cases h
  · split
    · rename_i hZero
      have hZero' : field.toNat = 0 := by rw [hZero]; rfl
      rw [if_pos hZero']
      split
      · rename_i hNone
        have hNone' : digits.toNat = 0 := by rw [hNone]; rfl
        have : b.toNat % 2 ^ 63 = 0 := by omega
        rw [this]
        simp [unpackedPlace]
      · have : b.toNat % 2 ^ 63 = digits.toNat := by omega
        rw [unpackedPlace, this, hZero', hBias]
        rfl
    · rename_i hZero
      have hZero' : field.toNat ≠ 0 := fun h => hZero (BitVec.eq_of_toNat_eq h)
      rw [if_neg hZero', unpackedPlace, toNat_implicit_append, hBias]
      rfl

theorem place_eq_magnitude (h : x.isFinite = true) :
    place x = if x.toBits.toNat < 2 ^ 63 then magnitude x.toBits.toNat
      else -magnitude (x.toBits.toNat - 2 ^ 63) := by
  have hPlace : place x = unpackedPlace (UnpackedFloat.unpack binary64 x.toBits.toBitVec) := rfl
  have hNat : x.toBits.toNat = x.toBits.toBitVec.toNat := rfl
  have hLt := x.toBits.toBitVec.isLt
  have hMagnitude := unpackedPlace_unpack x.toBits.toBitVec h
  rw [hPlace, hNat, hMagnitude]
  have hSign := toNat_unpackSign x.toBits.toBitVec
  split
  · have hPositive : @unpackSign binary64 x.toBits.toBitVec = 0#1 := by
      apply BitVec.eq_of_toNat_eq
      rw [hSign]
      change _ = 0
      omega
    rw [hPositive, Nat.mod_eq_of_lt (by omega)]
    exact one_mul _
  · have hNegative : @unpackSign binary64 x.toBits.toBitVec = 1#1 := by
      apply BitVec.eq_of_toNat_eq
      rw [hSign]
      change _ = 1
      omega
    have hRest : x.toBits.toBitVec.toNat % 2 ^ 63 = x.toBits.toBitVec.toNat - 2 ^ 63 := by omega
    rw [hNegative, hRest]
    exact neg_one_mul _

/-- The order for sorting keeps the places of finite numbers in order. -/
theorem place_le_of_rank_le (hx : x.isFinite = true) (hy : y.isFinite = true) (h : rank x ≤ rank y) :
    place x ≤ place y := by
  rw [place_eq_magnitude hx, place_eq_magnitude hy]
  unfold rank at h
  dsimp only at h
  split at h <;> split at h
  · rw [if_pos (by omega), if_pos (by omega)]
    exact magnitude_mono (by omega)
  · omega
  · rw [if_neg (by omega), if_pos (by omega)]
    have := magnitude_nonneg (x.toBits.toNat - 2 ^ 63)
    have := magnitude_nonneg y.toBits.toNat
    linarith
  · rw [if_neg (by omega), if_neg (by omega)]
    exact neg_le_neg (magnitude_mono (by omega))

end Loadout.Number.Binary
