import Loadout.Proofs.Number.Rounding
import Mathlib

/-!
# How arithmetic rounds

Floating-point numbers are added, subtracted and divided as mantissas with exponents, and a result that
has too many digits is rounded by its last digits alone. The result is the exact one rounded.

* `Represents`: the exact numbers that a mantissa with two more bits may stand for;
* `roundsTo_roundWithAccuracy`: shifting such a mantissa to its exponent rounds the exact number;
* `roundsTo_add`, `roundsTo_sub`, `roundsTo_div`: the operations on finite numbers round the exact
  results.
-/

namespace Loadout.Number.Binary

open Float.Model Float.Model.UnpackedFloat
open Float.Model.Format (binary64)

/-! ## Mantissas -/

/-- The numbers that a mantissa with two more bits stands for, in units of its last digit. The first of
the two says whether a half was cut off, the second one whether anything below it was. -/
inductive Represents : ExtendedMantissa → ℚ → Prop
  | exact {m : ℕ} {x : ℚ} (eq : x = m) : Represents ⟨m, false, false⟩ x
  | below {m : ℕ} {x : ℚ} (lt : m < x) (lt_half : x < m + 1 / 2) : Represents ⟨m, false, true⟩ x
  | half {m : ℕ} {x : ℚ} (eq : x = m + 1 / 2) : Represents ⟨m, true, false⟩ x
  | above {m : ℕ} {x : ℚ} (half_lt : m + 1 / 2 < x) (lt : x < m + 1) : Represents ⟨m, true, true⟩ x

namespace Represents

variable {em : ExtendedMantissa} {x : ℚ}

theorem bounds (h : Represents em x) : (em.mantissa : ℚ) ≤ x ∧ x < em.mantissa + 1 := by
  cases h with
  | exact eq => constructor <;> linarith
  | below lt lt_half => constructor <;> linarith
  | half eq => constructor <;> linarith
  | above half_lt lt => constructor <;> linarith

/-- Rounding looks at no more than the two bits. -/
theorem nearestEven (h : Represents em x) : NearestEven em.roundedMantissa x := by
  cases h with
  | @exact m x eq =>
    rw [eq]
    exact .self m
  | @below m x lt lt_half =>
    change NearestEven (m : ℤ) x
    refine ⟨by push_cast; linarith, by push_cast; linarith, ?_⟩
    rintro (hTie | hTie) <;> push_cast at hTie <;> linarith
  | @half m x eq =>
    change NearestEven ((m + m % 2 : ℕ) : ℤ) x
    rcases Nat.mod_two_eq_zero_or_one m with hBit | hBit <;> rw [hBit]
    · exact ⟨by push_cast; linarith, by push_cast; linarith, fun _ => ⟨m / 2, by omega⟩⟩
    · exact ⟨by push_cast; linarith, by push_cast; linarith, fun _ => ⟨(m + 1) / 2, by omega⟩⟩
  | @above m x half_lt lt =>
    change NearestEven ((m + 1 : ℕ) : ℤ) x
    refine ⟨by push_cast; linarith, by push_cast; linarith, ?_⟩
    rintro (hTie | hTie) <;> push_cast at hTie <;> linarith

theorem shiftRightOne (h : Represents em x) : Represents em.shiftRightOne (x / 2) := by
  have hEven {m : ℕ} (hBit : m % 2 = 0) (r s : Bool) :
      ExtendedMantissa.shiftRightOne ⟨m, r, s⟩ = ⟨m / 2, false, r || s⟩ ∧
        (m : ℚ) = 2 * ((m / 2 : ℕ) : ℚ) := by
    refine ⟨by simp only [ExtendedMantissa.shiftRightOne, hBit]; rfl, ?_⟩
    exact_mod_cast (by omega : m = 2 * (m / 2))
  have hOdd {m : ℕ} (hBit : m % 2 = 1) (r s : Bool) :
      ExtendedMantissa.shiftRightOne ⟨m, r, s⟩ = ⟨m / 2, true, r || s⟩ ∧
        (m : ℚ) = 2 * ((m / 2 : ℕ) : ℚ) + 1 := by
    refine ⟨by simp only [ExtendedMantissa.shiftRightOne, hBit]; rfl, ?_⟩
    exact_mod_cast (by omega : m = 2 * (m / 2) + 1)
  cases h with
  | @exact m x eq =>
    rcases Nat.mod_two_eq_zero_or_one m with hBit | hBit
    · obtain ⟨hShift, hm⟩ := hEven hBit false false
      rw [hShift]
      exact .exact (by linarith)
    · obtain ⟨hShift, hm⟩ := hOdd hBit false false
      rw [hShift]
      exact .half (by linarith)
  | @below m x lt lt_half =>
    rcases Nat.mod_two_eq_zero_or_one m with hBit | hBit
    · obtain ⟨hShift, hm⟩ := hEven hBit false true
      rw [hShift]
      exact .below (by linarith) (by linarith)
    · obtain ⟨hShift, hm⟩ := hOdd hBit false true
      rw [hShift]
      exact .above (by linarith) (by linarith)
  | @half m x eq =>
    rcases Nat.mod_two_eq_zero_or_one m with hBit | hBit
    · obtain ⟨hShift, hm⟩ := hEven hBit true false
      rw [hShift]
      exact .below (by linarith) (by linarith)
    · obtain ⟨hShift, hm⟩ := hOdd hBit true false
      rw [hShift]
      exact .above (by linarith) (by linarith)
  | @above m x half_lt lt =>
    rcases Nat.mod_two_eq_zero_or_one m with hBit | hBit
    · obtain ⟨hShift, hm⟩ := hEven hBit true true
      rw [hShift]
      exact .below (by linarith) (by linarith)
    · obtain ⟨hShift, hm⟩ := hOdd hBit true true
      rw [hShift]
      exact .above (by linarith) (by linarith)

theorem shiftRight (h : Represents em x) (n : ℕ) : Represents (em >>> n) (x / 2 ^ n) := by
  change Represents (n.repeat ExtendedMantissa.shiftRightOne em) _
  induction n with
  | zero => simpa [Nat.repeat] using h
  | succ n ih =>
    rw [Nat.repeat, pow_succ, ← div_div]
    exact ih.shiftRightOne

/-- The rest of a division says how the quotient goes on. -/
theorem ofFraction (m : ℕ) {num den : ℕ} (h : num < den) :
    Represents (.ofMantissaAndAccuracy m (accuracyOfFraction num den)) (m + num / den) := by
  have hDen : (0 : ℚ) < den := by exact_mod_cast (Nat.zero_le num).trans_lt h
  have hLt : (num : ℚ) / den < 1 := by
    rw [div_lt_one hDen]
    exact_mod_cast h
  unfold accuracyOfFraction
  by_cases hZero : num = 0
  · rw [if_pos hZero]
    exact .exact (by simp [hZero])
  · have hNum : (0 : ℚ) < num := by exact_mod_cast Nat.pos_of_ne_zero hZero
    have hPos : (0 : ℚ) < num / den := by positivity
    rw [if_neg hZero]
    rcases lt_trichotomy (2 * num) den with hHalf | hHalf | hHalf
    · have hBelow : (num : ℚ) / den < 1 / 2 := by
        rw [div_lt_div_iff₀ hDen two_pos]
        exact_mod_cast (by omega : num * 2 < 1 * den)
      rw [Nat.compare_eq_lt.mpr hHalf]
      exact .below (by linarith) (by linarith)
    · have hEq : (num : ℚ) / den = 1 / 2 := by
        rw [div_eq_div_iff hDen.ne' two_ne_zero]
        exact_mod_cast (by omega : num * 2 = 1 * den)
      rw [Nat.compare_eq_eq.mpr hHalf]
      exact .half (by linarith)
    · have hAbove : 1 / 2 < (num : ℚ) / den := by
        rw [div_lt_div_iff₀ two_pos hDen]
        exact_mod_cast (by omega : 1 * den < num * 2)
      rw [Nat.compare_eq_gt.mpr hHalf]
      exact .above (by linarith) (by linarith)

end Represents

theorem mantissa_ofMantissaAndAccuracy (m : ℕ) (accuracy : Accuracy) :
    (ExtendedMantissa.ofMantissaAndAccuracy m accuracy).mantissa = m := by
  unfold ExtendedMantissa.ofMantissaAndAccuracy
  split <;> rfl

/-- A mantissa is the whole part of what it stands for. -/
theorem Represents.bounds_ofMantissaAndAccuracy {m : ℕ} {accuracy : Accuracy} {x : ℚ}
    (h : Represents (.ofMantissaAndAccuracy m accuracy) x) : (m : ℚ) ≤ x ∧ x < m + 1 := by
  have hBounds := h.bounds
  rwa [mantissa_ofMantissaAndAccuracy] at hBounds

/-! ## Shifting -/

theorem targetExponent_binary64 (t : ℤ) :
    binary64.targetExponent t = max (t - 53) (-1074) := by
  simp [Format.targetExponent, Format.mantissaBits, Format.minExponent]

/-- Shifting to a greater exponent keeps the number. -/
theorem represents_shiftToExponent {m : ℕ} {e target : ℤ} {accuracy : Accuracy} {x : ℚ}
    (he : e ≤ target) (h : Represents (.ofMantissaAndAccuracy m accuracy) (x / 2 ^ e)) :
    Represents (shiftToExponent m e accuracy target).1 (x / 2 ^ target) ∧
      (shiftToExponent m e accuracy target).2 = target := by
  obtain ⟨k, rfl⟩ : ∃ k : ℕ, target = e + k := ⟨(target - e).toNat, by omega⟩
  have hk : (e + k - e).toNat = k := by omega
  simp only [shiftToExponent, hk, and_true]
  rw [zpow_add₀ two_ne_zero, zpow_natCast, ← div_div]
  exact h.shiftRight k

/-- The exponent that a mantissa is shifted to is that of the unit for its number. -/
theorem unitExponent_targetExponent {m : ℕ} {e : ℤ} {x : ℚ} (hLow : (m : ℚ) ≤ x / 2 ^ e)
    (hHigh : x / 2 ^ e < m + 1)
    (he : e ≤ binary64.targetExponent (totalExponent m e)) :
    UnitExponent x (binary64.targetExponent (totalExponent m e)) := by
  rw [le_div_iff₀ (by positivity)] at hLow
  rw [div_lt_iff₀ (by positivity)] at hHigh
  have hx : 0 ≤ x := le_trans (by positivity) hLow
  rw [targetExponent_binary64] at he ⊢
  unfold totalExponent at he ⊢
  refine ⟨le_max_right _ _, ?_, ?_⟩
  · rw [abs_of_nonneg hx]
    have hm : (m : ℚ) + 1 ≤ 2 ^ (m.log2 + 1) := by exact_mod_cast Nat.lt_log2_self
    calc x < (m + 1) * 2 ^ e := hHigh
      _ ≤ 2 ^ (m.log2 + 1) * 2 ^ e := by gcongr
      _ = 2 ^ ((m.log2 + 1 : ℕ) + e) := by rw [zpow_add₀ two_ne_zero, zpow_natCast]
      _ ≤ 2 ^ (max ((m.log2 : ℤ) + 1 + e - 53) (-1074) + 53) := by
          apply zpow_le_zpow_right₀ one_le_two
          have := le_max_left ((m.log2 : ℤ) + 1 + e - 53) (-1074)
          push_cast
          omega
  · by_cases hLeast : (m.log2 : ℤ) + 1 + e - 53 ≤ -1074
    · exact .inl (max_eq_right hLeast)
    · right
      rw [max_eq_left (by omega), abs_of_nonneg hx]
      have hm : m ≠ 0 := by
        rintro rfl
        rw [max_eq_left (by omega)] at he
        simp at he
        omega
      have hm' : (2 : ℚ) ^ m.log2 ≤ m := by exact_mod_cast Nat.log2_self_le hm
      calc (2 : ℚ) ^ ((m.log2 : ℤ) + 1 + e - 53 + 52) = 2 ^ m.log2 * 2 ^ e := by
            rw [← zpow_natCast, ← zpow_add₀ two_ne_zero]
            congr 1
            omega
        _ ≤ m * 2 ^ e := by gcongr
        _ ≤ x := hLow

theorem shiftToTargetExponent_of_lt {n : ℕ} {e : ℤ} (hn : n < 2 ^ 53) (he : -1074 ≤ e) :
    (shiftToTargetExponent binary64 n e .exact).1.mantissa = n ∧
      (shiftToTargetExponent binary64 n e .exact).2 = e := by
  have hLog : n.log2 < 53 := by
    rcases Nat.eq_zero_or_pos n with rfl | hPos
    · simp
    · exact (Nat.log2_lt hPos.ne').mpr hn
  have hShift : (binary64.targetExponent (totalExponent n e) - e).toNat = 0 := by
    rw [targetExponent_binary64]
    unfold totalExponent
    omega
  simp only [shiftToTargetExponent, shiftToExponent, hShift]
  exact ⟨rfl, by simp⟩

theorem shiftToTargetExponent_pow {e : ℤ} (he : -1074 ≤ e) :
    (shiftToTargetExponent binary64 (2 ^ 53) e .exact).1.mantissa = 2 ^ 52 ∧
      (shiftToTargetExponent binary64 (2 ^ 53) e .exact).2 = e + 1 := by
  have hShift : (binary64.targetExponent (totalExponent (2 ^ 53) e) - e).toNat = 1 := by
    rw [targetExponent_binary64, totalExponent, Nat.log2_two_pow]
    omega
  simp only [shiftToTargetExponent, shiftToExponent, hShift]
  exact ⟨rfl, rfl⟩

/-! ## Places -/

/-- The sign as a factor. -/
def factor : Sign → ℚ
  | .negative => -1
  | .positive => 1

/-- The first power of two that is too large. -/
def limit : ℚ := 2 ^ (1024 : ℤ)

theorem limit_pos : 0 < limit := by
  unfold limit
  positivity

/-- The place of a number on the line. The infinities stand where the first numbers would be that are
too large, and what is no number has no place of its own. -/
def unpackedPlace : UnpackedFloat → ℚ
  | .notANumber => 0
  | .zero _ => 0
  | .infinity s => factor s * limit
  | .finite s m e _ => factor s * (m * 2 ^ e)

@[simp] theorem unpackedPlace_zero (s : Sign) : unpackedPlace (.zero s) = 0 := rfl

@[simp] theorem unpackedPlace_infinity_positive : unpackedPlace (.infinity .positive) = limit :=
  one_mul limit

@[simp] theorem unpackedPlace_infinity_negative : unpackedPlace (.infinity .negative) = -limit :=
  neg_one_mul limit

@[simp] theorem unpackedPlace_finite_positive {m : ℕ} {e : ℤ} (hm : 0 < m) :
    unpackedPlace (.finite .positive m e hm) = m * 2 ^ e := one_mul _

@[simp] theorem unpackedPlace_finite_negative {m : ℕ} {e : ℤ} (hm : 0 < m) :
    unpackedPlace (.finite .negative m e hm) = -(m * 2 ^ e) := neg_one_mul _

/-- A finite number in the form in which it is written: with 53 digits, or in units of the least
exponent. The exponent may be too large. -/
inductive Canonical : UnpackedFloat → Prop
  | zero (s : Sign) : Canonical (.zero s)
  | finite (s : Sign) {m : ℕ} {e : ℤ} (hm : 0 < m) (lt : m < 2 ^ 53) (least_le : -1074 ≤ e)
      (le : e = -1074 ∨ 2 ^ 52 ≤ m) : Canonical (.finite s m e hm)

/-! ## Rounding -/

/-- The result stands where the number is after rounding. -/
structure RoundsTo (x : ℚ) (f : UnpackedFloat) : Prop where
  canonical : Canonical f
  rounds : Rounds x (unpackedPlace f)

theorem Rounds.factor {x y : ℚ} (h : Rounds x y) (s : Sign) :
    Rounds (Binary.factor s * x) (Binary.factor s * y) := by
  cases s with
  | positive => simpa [Binary.factor] using h
  | negative => simpa [Binary.factor] using h.neg

/-- A mantissa that was rounded may have become one digit longer. That digit is taken off, which loses
nothing, since it is a zero. -/
theorem roundsTo_shiftToTargetExponent (s : Sign) {n : ℕ} {e : ℤ} {y : ℚ} (hHigh : n ≤ 2 ^ 53)
    (hLeast : -1074 ≤ e) (hLow : e = -1074 ∨ 2 ^ 52 ≤ n) (h : Rounds y (factor s * (n * 2 ^ e))) :
    RoundsTo y (if h : (shiftToTargetExponent binary64 n e .exact).1.mantissa = 0 then .zero s
      else .finite s (shiftToTargetExponent binary64 n e .exact).1.mantissa
        (shiftToTargetExponent binary64 n e .exact).2 (Nat.pos_of_ne_zero h)) := by
  rcases hHigh.lt_or_eq with hLt | rfl
  · obtain ⟨hMantissa, hExponent⟩ := shiftToTargetExponent_of_lt hLt hLeast
    simp only [hMantissa, hExponent]
    by_cases hZero : n = 0
    · rw [dif_pos hZero]
      rw [hZero, Nat.cast_zero, zero_mul, mul_zero] at h
      exact ⟨.zero s, h⟩
    · rw [dif_neg hZero]
      exact ⟨.finite s _ hLt hLeast hLow, h⟩
  · obtain ⟨hMantissa, hExponent⟩ := shiftToTargetExponent_pow hLeast
    simp only [hMantissa, hExponent]
    rw [dif_neg (by norm_num)]
    refine ⟨.finite s _ (by norm_num) (by omega) (.inr le_rfl), ?_⟩
    have hPower : (((2 ^ 52 : ℕ) : ℚ) * 2 ^ (e + 1)) = ((2 ^ 53 : ℕ) : ℚ) * 2 ^ e := by
      rw [zpow_add_one₀ two_ne_zero]
      push_cast
      ring
    rw [unpackedPlace, hPower]
    exact h

/-- A mantissa of any accuracy is rounded in two steps. The first one brings it to its unit and rounds
it there. The second one takes a digit off when rounding has made it one digit longer. -/
theorem roundsTo_roundWithAccuracy (s : Sign) {m : ℕ} {e : ℤ} {accuracy : Accuracy} {x : ℚ}
    (h : Represents (.ofMantissaAndAccuracy m accuracy) (x / 2 ^ e))
    (he : e ≤ binary64.targetExponent (totalExponent m e)) :
    RoundsTo (factor s * x) (roundWithAccuracy binary64 s m e accuracy) := by
  have hBounds := h.bounds_ofMantissaAndAccuracy
  have hUnit := unitExponent_targetExponent hBounds.1 hBounds.2 he
  obtain ⟨hRep, hExponent⟩ := represents_shiftToExponent he h
  have hx : 0 ≤ x := by
    have := le_trans (Nat.cast_nonneg m) hBounds.1
    rwa [le_div_iff₀ (by positivity), zero_mul] at this
  set target := binary64.targetExponent (totalExponent m e) with hTarget
  have hNearest := hRep.nearestEven
  have hLt := hUnit.lt
  have hLe := hUnit.le
  rw [abs_of_nonneg hx] at hLt hLe
  set n := (shiftToExponent m e accuracy target).1.roundedMantissa with hn
  have hHigh : n ≤ 2 ^ 53 := by exact_mod_cast Rounds.le_pow hNearest hLt
  have hLow : target = -1074 ∨ 2 ^ 52 ≤ n :=
    hLe.imp_right fun hLe => by exact_mod_cast Rounds.pow_le hNearest hLe
  have hRounds : Rounds (factor s * x) (factor s * (n * 2 ^ target)) :=
    Rounds.factor ⟨target, n, hUnit, hNearest, by push_cast; rfl⟩ s
  have hSecond := roundsTo_shiftToTargetExponent s hHigh hUnit.least_le hLow hRounds
  rw [← hExponent] at hSecond
  exact hSecond

theorem decreaseExponent_spec (m : ℕ) (e target : ℤ) :
    ((decreaseExponent m e target).1 : ℚ) * 2 ^ (decreaseExponent m e target).2 = m * 2 ^ e ∧
      (decreaseExponent m e target).2 = min e target := by
  obtain ⟨k, hk⟩ : ∃ k : ℕ, k = (e - target).toNat := ⟨_, rfl⟩
  simp only [decreaseExponent, ← hk]
  constructor
  · rw [Nat.shiftLeft_eq, zpow_sub₀ two_ne_zero, zpow_natCast]
    push_cast
    field_simp
  · omega

theorem totalExponent_shiftLeft {m : ℕ} (hm : 0 < m) (e : ℤ) (k : ℕ) :
    totalExponent (m <<< k) (e - k) = totalExponent m e := by
  induction k with
  | zero => simp
  | succ k ih =>
    have hPos : m <<< k ≠ 0 := by
      rw [Nat.shiftLeft_eq]
      positivity
    have hLog : (m <<< (k + 1)).log2 = (m <<< k).log2 + 1 := by
      rw [Nat.shiftLeft_succ, Nat.log2_two_mul hPos]
    unfold totalExponent at ih ⊢
    rw [hLog]
    push_cast
    omega

theorem roundsTo_round (s : Sign) {m : ℕ} (hm : 0 < m) (e : ℤ) :
    RoundsTo (factor s * (m * 2 ^ e)) (UnpackedFloat.round binary64 s m e) := by
  set target := binary64.targetExponent (totalExponent m e) with hTarget
  obtain ⟨hValue, hExponent⟩ := decreaseExponent_spec m e target
  have hTotal : totalExponent (decreaseExponent m e target).1 (decreaseExponent m e target).2 =
      totalExponent m e := totalExponent_shiftLeft hm e _
  have hRound : UnpackedFloat.round binary64 s m e = roundWithAccuracy binary64 s
      (decreaseExponent m e target).1 (decreaseExponent m e target).2 .exact := rfl
  rw [hRound, ← hValue]
  apply roundsTo_roundWithAccuracy
  · rw [mul_div_cancel_right₀ _ (by positivity)]
    exact .exact rfl
  · rw [hTotal, hExponent]
    exact min_le_right _ _

/-- A zero is in no need of rounding. -/
theorem roundsTo_zero (s : Sign) : RoundsTo 0 (.zero s) := by
  refine ⟨.zero s, ?_⟩
  have hSelf := Rounds.self (e := -1074) (n := 0) ⟨le_rfl, by simp, .inl rfl⟩
  simpa [unpackedPlace] using hSelf

theorem roundsTo_normalize (n e : ℤ) (s : Sign) :
    RoundsTo (n * 2 ^ e) (UnpackedFloat.normalize binary64 n e s) := by
  unfold UnpackedFloat.normalize
  rcases lt_trichotomy n 0 with hn | rfl | hn
  · rw [compare_lt_iff_lt.mpr hn]
    have hRound := roundsTo_round .negative (m := (-n).toNat) (by omega) e
    have hCast : ((-n).toNat : ℚ) = -n := by exact_mod_cast Int.toNat_of_nonneg (by omega)
    rw [hCast, factor] at hRound
    simpa using hRound
  · simpa using roundsTo_zero s
  · rw [compare_gt_iff_gt.mpr hn]
    have hRound := roundsTo_round .positive (m := n.toNat) (by omega) e
    have hCast : (n.toNat : ℚ) = n := by exact_mod_cast Int.toNat_of_nonneg (by omega)
    rw [hCast, factor, one_mul] at hRound
    exact hRound

/-! ## Quotients -/

theorem two_pow_totalExponent_le {m : ℕ} (hm : 0 < m) (e : ℤ) :
    (2 : ℚ) ^ (totalExponent m e - 1) ≤ m * 2 ^ e := by
  have hLog : (2 : ℚ) ^ m.log2 ≤ m := by exact_mod_cast Nat.log2_self_le hm.ne'
  calc (2 : ℚ) ^ (totalExponent m e - 1) = 2 ^ m.log2 * 2 ^ e := by
        rw [← zpow_natCast, ← zpow_add₀ two_ne_zero]
        congr 1
        unfold totalExponent
        omega
    _ ≤ m * 2 ^ e := by gcongr

theorem lt_two_pow_totalExponent (m : ℕ) (e : ℤ) : (m : ℚ) * 2 ^ e < 2 ^ totalExponent m e := by
  have hLog : (m : ℚ) < 2 ^ (m.log2 + 1) := by exact_mod_cast Nat.lt_log2_self
  calc (m : ℚ) * 2 ^ e < 2 ^ (m.log2 + 1) * 2 ^ e := by gcongr
    _ = 2 ^ totalExponent m e := by
        rw [← zpow_natCast, ← zpow_add₀ two_ne_zero]
        congr 1

/-- A quotient is at least the power of two whose exponent is one below the difference of the exponents. -/
theorem two_pow_le_quotient {m₁ m₂ : ℕ} (h₁ : 0 < m₁) (h₂ : 0 < m₂) (e₁ e₂ : ℤ) :
    (2 : ℚ) ^ (totalExponent m₁ e₁ - totalExponent m₂ e₂ - 1) ≤ m₁ * 2 ^ e₁ / (m₂ * 2 ^ e₂) := by
  have hm₂ : (0 : ℚ) < m₂ := by exact_mod_cast h₂
  rw [le_div_iff₀ (by positivity)]
  calc (2 : ℚ) ^ (totalExponent m₁ e₁ - totalExponent m₂ e₂ - 1) * (m₂ * 2 ^ e₂)
      ≤ 2 ^ (totalExponent m₁ e₁ - totalExponent m₂ e₂ - 1) * 2 ^ totalExponent m₂ e₂ := by
        gcongr
        exact (lt_two_pow_totalExponent m₂ e₂).le
    _ = 2 ^ (totalExponent m₁ e₁ - 1) := by
        rw [← zpow_add₀ two_ne_zero]
        congr 1
        omega
    _ ≤ m₁ * 2 ^ e₁ := two_pow_totalExponent_le h₁ e₁

/-- What reaches up to a power of two has as many digits as that. -/
theorem lt_totalExponent {q : ℕ} {e p : ℤ} {x : ℚ} (he : e ≤ p) (hx : (2 : ℚ) ^ p ≤ x)
    (hq : x / 2 ^ e < q + 1) : p < totalExponent q e := by
  have hDigits : 2 ^ (p - e).toNat ≤ q := by
    have hLt : (2 : ℚ) ^ (p - e) < q + 1 := by
      calc (2 : ℚ) ^ (p - e) = 2 ^ p / 2 ^ e := zpow_sub₀ two_ne_zero _ _
        _ ≤ x / 2 ^ e := by gcongr
        _ < q + 1 := hq
    rw [← Int.toNat_of_nonneg (by omega : 0 ≤ p - e), zpow_natCast] at hLt
    exact Nat.lt_succ_iff.mp (by exact_mod_cast hLt)
  have hPos := Nat.two_pow_pos (p - e).toNat
  have hLog := (Nat.le_log2 (by omega)).mpr hDigits
  unfold totalExponent
  omega

/-- The mantissa of a quotient and the accuracy of what is left over stand for the quotient in units. -/
theorem represents_quotient {m₁ m₂ k : ℕ} {e₁ e₂ e : ℤ} (h₂ : 0 < m₂) (hk : e₁ - e₂ = e + k) :
    Represents (.ofMantissaAndAccuracy ((m₁ <<< k) / m₂) (accuracyOfFraction ((m₁ <<< k) % m₂) m₂))
      (m₁ * 2 ^ e₁ / (m₂ * 2 ^ e₂) / 2 ^ e) := by
  have hm₂ : (0 : ℚ) < m₂ := by exact_mod_cast h₂
  have hPow : (2 : ℚ) ^ e₁ = 2 ^ e₂ * 2 ^ e * 2 ^ k := by
    rw [← zpow_natCast, ← zpow_add₀ two_ne_zero, ← zpow_add₀ two_ne_zero]
    congr 1
    omega
  have hQuotient : (m₁ : ℚ) * 2 ^ e₁ / (m₂ * 2 ^ e₂) / 2 ^ e = ((m₁ <<< k : ℕ) : ℚ) / m₂ := by
    rw [hPow, Nat.shiftLeft_eq]
    push_cast
    field_simp
  have hSplit : ((m₁ <<< k : ℕ) : ℚ) / m₂ =
      ((m₁ <<< k) / m₂ : ℕ) + ((m₁ <<< k) % m₂ : ℕ) / m₂ := by
    rw [div_eq_iff hm₂.ne', add_mul, div_mul_cancel₀ _ hm₂.ne']
    exact_mod_cast (Nat.div_add_mod' (m₁ <<< k) m₂).symm
  rw [hQuotient, hSplit]
  exact .ofFraction _ (Nat.mod_lt _ h₂)

/-- The quotient is computed to enough digits for its unit. -/
theorem roundsTo_divCore (s : Sign) {m₁ m₂ : ℕ} (h₁ : 0 < m₁) (h₂ : 0 < m₂) (e₁ e₂ : ℤ) :
    RoundsTo (factor s * (m₁ * 2 ^ e₁ / (m₂ * 2 ^ e₂)))
      (roundWithAccuracy binary64 s (divCore binary64 m₁ e₁ m₂ e₂).1
        (divCore binary64 m₁ e₁ m₂ e₂).2.1 (divCore binary64 m₁ e₁ m₂ e₂).2.2) := by
  set total := totalExponent m₁ e₁ - totalExponent m₂ e₂ with hTotal
  set e := min (e₁ - e₂) (binary64.targetExponent total) with he
  obtain ⟨k, hk⟩ : ∃ k : ℕ, e₁ - e₂ = e + k := ⟨(e₁ - e₂ - e).toNat, by omega⟩
  have hShift : (e₁ - e₂ - e).toNat = k := by omega
  have hCore : divCore binary64 m₁ e₁ m₂ e₂ =
      ((m₁ <<< k) / m₂, e, accuracyOfFraction ((m₁ <<< k) % m₂) m₂) := by
    simp only [divCore, ← hTotal, ← he, hShift]
  have hRep : Represents (.ofMantissaAndAccuracy ((m₁ <<< k) / m₂) _) _ := represents_quotient h₂ hk
  rw [hCore]
  apply roundsTo_roundWithAccuracy s hRep
  rw [targetExponent_binary64] at he ⊢
  by_cases hLeast : e ≤ -1074
  · exact hLeast.trans (le_max_right _ _)
  · have hDigits : total - 1 < totalExponent ((m₁ <<< k) / m₂) e :=
      lt_totalExponent (by omega) (two_pow_le_quotient h₁ h₂ e₁ e₂)
        hRep.bounds_ofMantissaAndAccuracy.2
    apply le_trans _ (le_max_left _ _)
    omega

/-! ## Arithmetic -/

/-- A number in canonical form is in no need of rounding. -/
theorem Canonical.roundsTo {f : UnpackedFloat} (h : Canonical f) : RoundsTo (unpackedPlace f) f := by
  refine ⟨h, ?_⟩
  cases h with
  | zero s => exact (roundsTo_zero s).rounds
  | @finite s m e hm lt least_le le =>
    have hUnit : UnitExponent ((m : ℤ) * 2 ^ e : ℚ) e := by
      have hAbs : |((m : ℤ) * 2 ^ e : ℚ)| = m * 2 ^ e := by
        rw [Int.cast_natCast]
        exact abs_of_nonneg (by positivity)
      refine ⟨least_le, ?_, ?_⟩
      · rw [hAbs, two_zpow_add]
        gcongr
        exact_mod_cast lt
      · rw [hAbs, two_zpow_add]
        refine le.imp_right fun hle => ?_
        gcongr
        exact_mod_cast hle
    have hSelf := (Rounds.self hUnit).factor s
    rwa [Int.cast_natCast] at hSelf

theorem factor_neg (s : Sign) : factor (-s) = -factor s := by
  cases s
  · exact (neg_neg 1).symm
  · rfl

theorem factor_div (s t : Sign) : factor (s / t) = factor s / factor t := by
  cases s <;> cases t
  · exact (by norm_num : (1 : ℚ) = -1 / -1)
  · exact (by norm_num : (-1 : ℚ) = -1 / 1)
  · exact (by norm_num : (-1 : ℚ) = 1 / -1)
  · exact (by norm_num : (1 : ℚ) = 1 / 1)

theorem apply_eq (s : Sign) (n : ℤ) : ((s.apply n : ℤ) : ℚ) = factor s * n := by
  cases s <;> simp [Sign.apply, factor]

/-- Numbers that are brought to the smaller exponent are whole multiples of its unit. -/
theorem apply_decreaseExponent (s : Sign) (m : ℕ) {e target : ℤ} (h : target ≤ e) :
    ((s.apply (decreaseExponent m e target).1 : ℤ) : ℚ) * 2 ^ target = factor s * (m * 2 ^ e) := by
  obtain ⟨hValue, hExponent⟩ := decreaseExponent_spec m e target
  rw [min_eq_right h] at hExponent
  rw [hExponent] at hValue
  rw [apply_eq, mul_assoc, ← hValue, Int.cast_natCast]

theorem roundsTo_sub {f g : UnpackedFloat} (hf : Canonical f) (hg : Canonical g) :
    RoundsTo (unpackedPlace f - unpackedPlace g) (UnpackedFloat.sub binary64 f g) := by
  cases hf with
  | zero s =>
    cases hg with
    | zero s' =>
      rw [unpackedPlace_zero, unpackedPlace_zero, sub_zero]
      simp only [UnpackedFloat.sub]
      split <;> exact roundsTo_zero _
    | @finite s' m e hm lt least_le le =>
      have hNeg := (Canonical.finite (-s') hm lt least_le le).roundsTo
      rw [unpackedPlace, factor_neg, neg_mul] at hNeg
      rw [unpackedPlace_zero, zero_sub]
      exact hNeg
  | @finite s m e hm lt least_le le =>
    cases hg with
    | zero s' =>
      rw [unpackedPlace_zero, sub_zero]
      exact (Canonical.finite s hm lt least_le le).roundsTo
    | @finite s' m' e' hm' =>
      have hExact : unpackedPlace (.finite s m e hm) - unpackedPlace (.finite s' m' e' hm') =
          ((s.apply (decreaseExponent m e (min e e')).1 -
            s'.apply (decreaseExponent m' e' (min e e')).1 : ℤ) : ℚ) * 2 ^ min e e' := by
        rw [Int.cast_sub, sub_mul, apply_decreaseExponent s m (min_le_left e e'),
          apply_decreaseExponent s' m' (min_le_right e e')]
        rfl
      rw [hExact]
      exact roundsTo_normalize _ _ _

theorem roundsTo_add {f g : UnpackedFloat} (hf : Canonical f) (hg : Canonical g) :
    RoundsTo (unpackedPlace f + unpackedPlace g) (UnpackedFloat.add binary64 f g) := by
  cases hf with
  | zero s =>
    cases hg with
    | zero s' =>
      rw [unpackedPlace_zero, unpackedPlace_zero, add_zero]
      simp only [UnpackedFloat.add]
      split <;> exact roundsTo_zero _
    | @finite s' m e hm lt least_le le =>
      rw [unpackedPlace_zero, zero_add]
      exact (Canonical.finite s' hm lt least_le le).roundsTo
  | @finite s m e hm lt least_le le =>
    cases hg with
    | zero s' =>
      rw [unpackedPlace_zero, add_zero]
      exact (Canonical.finite s hm lt least_le le).roundsTo
    | @finite s' m' e' hm' =>
      have hExact : unpackedPlace (.finite s m e hm) + unpackedPlace (.finite s' m' e' hm') =
          ((s.apply (decreaseExponent m e (min e e')).1 +
            s'.apply (decreaseExponent m' e' (min e e')).1 : ℤ) : ℚ) * 2 ^ min e e' := by
        rw [Int.cast_add, add_mul, apply_decreaseExponent s m (min_le_left e e'),
          apply_decreaseExponent s' m' (min_le_right e e')]
        rfl
      rw [hExact]
      exact roundsTo_normalize _ _ _

theorem roundsTo_div {f g : UnpackedFloat} (hf : Canonical f) (hg : Canonical g)
    (hne : unpackedPlace g ≠ 0) :
    RoundsTo (unpackedPlace f / unpackedPlace g) (UnpackedFloat.div binary64 f g) := by
  cases hg with
  | zero s' => exact absurd (unpackedPlace_zero s') hne
  | @finite s' m' e' hm' =>
    cases hf with
    | zero s =>
      rw [unpackedPlace_zero, zero_div]
      exact roundsTo_zero _
    | @finite s m e hm =>
      have hExact : unpackedPlace (.finite s m e hm) / unpackedPlace (.finite s' m' e' hm') =
          factor (s / s') * (m * 2 ^ e / (m' * 2 ^ e')) := by
        rw [factor_div, div_mul_div_comm]
        rfl
      rw [hExact]
      exact roundsTo_divCore _ hm hm' e e'

end Loadout.Number.Binary
