import Loadout.Proofs.Number.Arithmetic

/-!
# The order of floating-point numbers

A number that is read from its bits stands at a place on the line of rational numbers, the infinities at
its ends. The comparisons are those of the places, and a result is stored where it was rounded to or,
when that is too large, at the end of the line.

* `compare_stored`, `unpack_pack`: comparing and storing, on numbers that were read apart;
* `le_iff_place`, `lt_iff_place`, `beq_iff_place`: the comparisons of floating-point numbers;
* `Computes`: an operation that rounds what a function gives;
* `place_sub_le`, `place_add_le`, `place_div_le`: the operations keep the order, infinities included.
-/

namespace Loadout.Number.Binary

open Float.Model Float.Model.UnpackedFloat
open Float.Model.Format (binary64)

/-! ## Numbers as they are stored -/

/-- What the bits of a number say, unless they say that it is none. -/
inductive Stored : UnpackedFloat → Prop
  | infinity (s : Sign) : Stored (.infinity s)
  | finite {f : UnpackedFloat} (canonical : Canonical f) (lt : |unpackedPlace f| < limit) :
      Stored f

theorem abs_unpackedPlace_finite (s : Sign) {m : ℕ} {e : ℤ} (hm : 0 < m) :
    |unpackedPlace (.finite s m e hm)| = m * 2 ^ e := by
  have h : (0 : ℚ) ≤ m * 2 ^ e := by positivity
  cases s <;> simp [unpackedPlace, factor, abs_of_nonneg h]

theorem mul_zpow_lt_of_le {m : ℕ} {e : ℤ} (hm : m < 2 ^ 53) (he : e ≤ 971) :
    (m : ℚ) * 2 ^ e < limit := by
  have hCast : (m : ℚ) < 2 ^ 53 := by exact_mod_cast hm
  calc (m : ℚ) * 2 ^ e < 2 ^ 53 * 2 ^ e := by gcongr
    _ ≤ 2 ^ 53 * 2 ^ (971 : ℤ) := by gcongr; norm_num
    _ = 2 ^ (971 + 53 : ℤ) := (two_zpow_add 971 53).symm
    _ = limit := by rw [limit]; norm_num

theorem le_mul_zpow_of_lt {m : ℕ} {e : ℤ} (hm : 2 ^ 52 ≤ m) (he : 971 < e) :
    limit ≤ m * 2 ^ e := by
  have hCast : (2 : ℚ) ^ 52 ≤ m := by exact_mod_cast hm
  calc limit = 2 ^ (972 + 52 : ℤ) := by rw [limit]; norm_num
    _ = 2 ^ 52 * 2 ^ (972 : ℤ) := two_zpow_add 972 52
    _ ≤ 2 ^ 52 * 2 ^ e := by gcongr; norm_num; omega
    _ ≤ m * 2 ^ e := by gcongr

theorem Stored.of_finite (s : Sign) {m : ℕ} {e : ℤ} (hm : 0 < m) (lt : m < 2 ^ 53)
    (least_le : -1074 ≤ e) (le : e = -1074 ∨ 2 ^ 52 ≤ m) (he : e ≤ 971) :
    Stored (.finite s m e hm) := by
  refine .finite (.finite s hm lt least_le le) ?_
  rw [abs_unpackedPlace_finite]
  exact mul_zpow_lt_of_le lt he

theorem toNat_implicit_append (m : BitVec 52) : (1#1 ++ m).toNat = 2 ^ 52 + m.toNat := by
  rw [BitVec.toNat_append, ← Nat.shiftLeft_add_eq_or_of_lt m.isLt]
  rfl

/-- Reading bits gives a stored number. -/
theorem stored_unpack (b : BitVec 64) :
    UnpackedFloat.unpack binary64 b = .notANumber ∨ Stored (UnpackedFloat.unpack binary64 b) := by
  obtain ⟨field, hField⟩ : ∃ v : BitVec 11, v = @unpackExponent binary64 b := ⟨_, rfl⟩
  obtain ⟨digits, hDigits⟩ : ∃ v : BitVec 52, v = @unpackMantissa binary64 b := ⟨_, rfl⟩
  have hFieldLt := field.isLt
  have hDigitsLt := digits.isLt
  have hBias : (binary64.exponentBias : ℤ) = 1023 := rfl
  unfold UnpackedFloat.unpack
  simp only [← hField, ← hDigits]
  split
  · split
    · exact .inr (.infinity _)
    · exact .inl rfl
  · rename_i hOnes
    have hOnes' : field.toNat ≠ 2047 := fun h => hOnes (BitVec.eq_of_toNat_eq h)
    right
    split
    · rename_i hZero
      split
      · exact .finite (.zero _) (by simp [unpackedPlace, limit_pos])
      · have hExponent : ((field.toNat : ℤ) - (binary64.exponentBias + (52 : ℕ)) + 1) = -1074 := by
          rw [hZero, hBias]
          rfl
        exact .of_finite _ _ (by omega) (by omega) (.inl hExponent) (by omega)
    · rename_i hZero
      have hZero' : field.toNat ≠ 0 := fun h => hZero (BitVec.eq_of_toNat_eq h)
      have hDigits' := toNat_implicit_append digits
      exact .of_finite _ _ (by omega) (by omega) (.inr (by omega)) (by omega)

/-! ## Packing -/

theorem unpack_packComponents (s : Sign) (field : BitVec 11) (digits : BitVec 52) :
    UnpackedFloat.unpack binary64 (packComponents binary64 s field digits) =
      if field = -1#_ then
        if digits = 0#_ then .infinity s else .notANumber
      else if field = 0#_ then
        if h : digits = 0#_ then .zero s
        else .finite s digits.toNat (-1074)
          (by simpa [BitVec.toNat_pos, BitVec.pos_iff_ne_zero])
      else .finite s (1#1 ++ digits).toNat (field.toNat - 1075)
        (by rw [toNat_implicit_append]; omega) := by
  unfold UnpackedFloat.unpack
  simp only [unpackMantissa_packComponents, unpackExponent_packComponents,
    unpackSign_packComponents, Sign.ofBitVec_toBitVec]
  split
  · rfl
  · split
    · rename_i hZero
      subst hZero
      rfl
    · rfl

/-- The number cut off at the infinities. -/
def cutOff (x : ℚ) : ℚ := max (-limit) (min x limit)

theorem cutOff_mono {x y : ℚ} (h : x ≤ y) : cutOff x ≤ cutOff y :=
  max_le_max le_rfl (min_le_min h le_rfl)

theorem cutOff_of_lt {x : ℚ} (h : |x| < limit) : cutOff x = x := by
  obtain ⟨hLow, hHigh⟩ := abs_lt.mp h
  rw [cutOff, min_eq_left hHigh.le, max_eq_right hLow.le]

theorem cutOff_factor {x : ℚ} (s : Sign) (h : limit ≤ x) :
    cutOff (factor s * x) = factor s * limit := by
  have hPos := limit_pos
  cases s with
  | positive => rw [factor, one_mul, one_mul, cutOff, min_eq_right h, max_eq_right (by linarith)]
  | negative =>
    rw [factor, neg_one_mul, neg_one_mul, cutOff, min_eq_left (by linarith),
      max_eq_left (by linarith)]

theorem pack_of_lt {s : Sign} {m : ℕ} {e : ℤ} (hm : 0 < m) (he : 971 < e) :
    UnpackedFloat.pack binary64 (.finite s m e hm) = packedInfinity binary64 s := by
  have hBias : (binary64.exponentBias : ℤ) = 1023 := rfl
  unfold UnpackedFloat.pack
  dsimp only
  rw [if_pos (by omega)]

theorem pack_normal {s : Sign} {m : ℕ} {e : ℤ} (hm : 0 < m) (hlt : m < 2 ^ 53) (hle : 2 ^ 52 ≤ m)
    (least_le : -1074 ≤ e) (he : e ≤ 971) :
    UnpackedFloat.pack binary64 (.finite s m e hm) =
      packComponents binary64 s (BitVec.ofNat 11 (e + 1075).toNat) (BitVec.ofNat 52 m) := by
  have hBias : (binary64.exponentBias : ℤ) = 1023 := rfl
  have hField : (e + binary64.exponentBias + (52 : ℕ)).toNat = (e + 1075).toNat := by omega
  have hLog : m.log2 + 1 = binary64.mantissaBits := by
    rw [(Nat.log2_eq_iff hm.ne').mpr ⟨hle, hlt⟩]
    rfl
  unfold UnpackedFloat.pack
  dsimp only
  rw [hField, if_neg (by omega), if_pos hLog]

theorem pack_subnormal {s : Sign} {m : ℕ} (hm : 0 < m) (hlt : m < 2 ^ 52) :
    UnpackedFloat.pack binary64 (.finite s m (-1074) hm) =
      packComponents binary64 s 0#_ (BitVec.ofNat 52 m) := by
  have hLog : m.log2 + 1 ≠ binary64.mantissaBits := by
    have hLt : m.log2 < 52 := (Nat.log2_lt hm.ne').mpr hlt
    have hBits : binary64.mantissaBits = 53 := rfl
    omega
  unfold UnpackedFloat.pack
  dsimp only
  rw [if_neg (by decide), if_neg hLog]

/-- Storing and reading give back a number that is not too large. -/
theorem unpack_pack_of_le {s : Sign} {m : ℕ} {e : ℤ} (hm : 0 < m) (hlt : m < 2 ^ 53)
    (least_le : -1074 ≤ e) (hle : e = -1074 ∨ 2 ^ 52 ≤ m) (he : e ≤ 971) :
    UnpackedFloat.unpack binary64 (UnpackedFloat.pack binary64 (.finite s m e hm)) =
      .finite s m e hm := by
  by_cases hNormal : 2 ^ 52 ≤ m
  · obtain ⟨field, hField⟩ : ∃ field : ℕ, e + 1075 = field := ⟨(e + 1075).toNat, by omega⟩
    have hToNat : (BitVec.ofNat 11 field).toNat = field := by
      rw [BitVec.toNat_ofNat, Nat.mod_eq_of_lt (by omega)]
    have hOnes : BitVec.ofNat 11 field ≠ -1#_ := by
      intro h
      have hEq : (BitVec.ofNat 11 field).toNat = 2047 := congrArg BitVec.toNat h
      omega
    have hZero : BitVec.ofNat 11 field ≠ 0#_ := by
      intro h
      have hEq : (BitVec.ofNat 11 field).toNat = 0 := congrArg BitVec.toNat h
      omega
    have hDigits : (1#1 ++ BitVec.ofNat 52 m).toNat = m := by
      rw [toNat_implicit_append, BitVec.toNat_ofNat]
      omega
    rw [pack_normal hm hlt hNormal least_le he, unpack_packComponents, hField, Int.toNat_natCast,
      if_neg hOnes, if_neg hZero]
    simp only [hDigits, hToNat]
    congr 1
    omega
  · obtain rfl := hle.resolve_right hNormal
    have hDigits : (BitVec.ofNat 52 m).toNat = m := by
      rw [BitVec.toNat_ofNat, Nat.mod_eq_of_lt (by omega)]
    have hZero : BitVec.ofNat 52 m ≠ 0#_ := by
      intro h
      have hEq : (BitVec.ofNat 52 m).toNat = 0 := congrArg BitVec.toNat h
      omega
    rw [pack_subnormal hm (by omega), unpack_packComponents, if_neg (by decide), if_pos rfl,
      dif_neg hZero]
    simp only [hDigits]

/-- Storing a rounded number keeps it, unless it is too large. -/
theorem unpack_pack {f : UnpackedFloat} (h : Canonical f) :
    Stored (UnpackedFloat.unpack binary64 (UnpackedFloat.pack binary64 f)) ∧
      unpackedPlace (UnpackedFloat.unpack binary64 (UnpackedFloat.pack binary64 f)) =
        cutOff (unpackedPlace f) := by
  cases h with
  | zero s =>
    have hEq : UnpackedFloat.unpack binary64 (UnpackedFloat.pack binary64 (.zero s)) = .zero s :=
      unpack_packComponents s 0 0
    have hSmall : |unpackedPlace (.zero s)| < limit := by simp [unpackedPlace, limit_pos]
    rw [hEq, cutOff_of_lt hSmall]
    exact ⟨.finite (.zero s) hSmall, rfl⟩
  | @finite s m e hm lt least_le le =>
    by_cases he : e ≤ 971
    · have hStored := Stored.of_finite s hm lt least_le le he
      rw [unpack_pack_of_le hm lt least_le le he, cutOff_of_lt]
      · exact ⟨hStored, rfl⟩
      · rw [abs_unpackedPlace_finite]
        exact mul_zpow_lt_of_le lt he
    · have hEq : UnpackedFloat.unpack binary64
          (UnpackedFloat.pack binary64 (.finite s m e hm)) = .infinity s := by
        rw [pack_of_lt hm (by omega)]
        exact unpack_packComponents s (-1#_) 0
      rw [hEq]
      refine ⟨.infinity s, ?_⟩
      rw [unpackedPlace, unpackedPlace, cutOff_factor]
      exact le_mul_zpow_of_lt (le.resolve_left (by omega)) (by omega)

/-! ## Order -/

/-- Two magnitudes in canonical form are compared by their exponents first. -/
theorem compare_magnitudes {m₁ m₂ : ℕ} {e₁ e₂ : ℤ} (h₁ : m₁ < 2 ^ 53) (h₂ : m₂ < 2 ^ 53)
    (l₁ : -1074 ≤ e₁) (l₂ : -1074 ≤ e₂) (c₁ : e₁ = -1074 ∨ 2 ^ 52 ≤ m₁)
    (c₂ : e₂ = -1074 ∨ 2 ^ 52 ≤ m₂) :
    (compare e₁ e₂).then (compare m₁ m₂) = compare ((m₁ : ℚ) * 2 ^ e₁) (m₂ * 2 ^ e₂) := by
  have hLt {m m' : ℕ} {e e' : ℤ} (h : m < 2 ^ 53) (l : -1074 ≤ e) (c : e' = -1074 ∨ 2 ^ 52 ≤ m')
      (he : e < e') : (m : ℚ) * 2 ^ e < m' * 2 ^ e' := by
    have hm : (m : ℚ) < 2 ^ 53 := by exact_mod_cast h
    have hm' : (2 : ℚ) ^ 52 ≤ m' := by exact_mod_cast c.resolve_left (by omega)
    calc (m : ℚ) * 2 ^ e < 2 ^ 53 * 2 ^ e := by gcongr
      _ = 2 ^ (e + 53) := (two_zpow_add e 53).symm
      _ ≤ 2 ^ (e' + 52) := zpow_le_zpow_right₀ one_le_two (by omega)
      _ = 2 ^ 52 * 2 ^ e' := two_zpow_add e' 52
      _ ≤ m' * 2 ^ e' := by gcongr
  rcases lt_trichotomy e₁ e₂ with he | rfl | he
  · rw [compare_lt_iff_lt.mpr he, compare_lt_iff_lt.mpr (hLt h₁ l₁ c₂ he)]
    rfl
  · have hUnit : (0 : ℚ) < 2 ^ e₁ := by positivity
    rw [compare_eq_iff_eq.mpr rfl, Ordering.eq_then]
    rcases lt_trichotomy m₁ m₂ with hm | rfl | hm
    · have hCast : (m₁ : ℚ) < m₂ := by exact_mod_cast hm
      rw [compare_lt_iff_lt.mpr hm, compare_lt_iff_lt.mpr (by gcongr)]
    · rw [compare_eq_iff_eq.mpr rfl, compare_eq_iff_eq.mpr rfl]
    · have hCast : (m₂ : ℚ) < m₁ := by exact_mod_cast hm
      rw [compare_gt_iff_gt.mpr hm, compare_gt_iff_gt.mpr (by gcongr)]
  · rw [compare_gt_iff_gt.mpr he, compare_gt_iff_gt.mpr (hLt h₂ l₂ c₁ he)]
    rfl

theorem compare_neg (x y : ℚ) : compare (-x) (-y) = (compare x y).swap := by
  rcases lt_trichotomy x y with h | rfl | h
  · rw [compare_lt_iff_lt.mpr h, compare_gt_iff_gt.mpr (neg_lt_neg h)]
    rfl
  · rw [compare_eq_iff_eq.mpr rfl, compare_eq_iff_eq.mpr rfl]
    rfl
  · rw [compare_gt_iff_gt.mpr h, compare_lt_iff_lt.mpr (neg_lt_neg h)]
    rfl

theorem compare_canonical {f g : UnpackedFloat} (hf : Canonical f) (hg : Canonical g) :
    f.compare g = some (compare (unpackedPlace f) (unpackedPlace g)) := by
  have hPos {m : ℕ} (hm : 0 < m) (e : ℤ) : (0 : ℚ) < m * 2 ^ e := by positivity
  cases hf with
  | zero s =>
    cases hg with
    | zero s' =>
      rw [unpackedPlace_zero, unpackedPlace_zero, compare_eq_iff_eq.mpr rfl]
      rfl
    | @finite s' m' e' hm' =>
      have h := hPos hm' e'
      cases s' with
      | positive =>
        rw [unpackedPlace_zero, unpackedPlace_finite_positive, compare_lt_iff_lt.mpr h]
        rfl
      | negative =>
        rw [unpackedPlace_zero, unpackedPlace_finite_negative,
          compare_gt_iff_gt.mpr (by linarith)]
        rfl
  | @finite s m e hm lt least_le le =>
    have h := hPos hm e
    cases hg with
    | zero s' =>
      cases s with
      | positive =>
        rw [unpackedPlace_zero, unpackedPlace_finite_positive, compare_gt_iff_gt.mpr h]
        rfl
      | negative =>
        rw [unpackedPlace_zero, unpackedPlace_finite_negative,
          compare_lt_iff_lt.mpr (by linarith)]
        rfl
    | @finite s' m' e' hm' lt' least_le' le' =>
      have h' := hPos hm' e'
      have hCompare := compare_magnitudes lt lt' least_le least_le' le le'
      cases s <;> cases s'
      · rw [unpackedPlace_finite_negative, unpackedPlace_finite_negative, compare_neg, ← hCompare]
        rfl
      · rw [unpackedPlace_finite_negative, unpackedPlace_finite_positive,
          compare_lt_iff_lt.mpr (by linarith)]
        rfl
      · rw [unpackedPlace_finite_negative, unpackedPlace_finite_positive,
          compare_gt_iff_gt.mpr (by linarith)]
        rfl
      · rw [unpackedPlace_finite_positive, unpackedPlace_finite_positive, ← hCompare]
        rfl

/-- Comparing stored numbers is comparing their places. -/
theorem compare_stored {f g : UnpackedFloat} (hf : Stored f) (hg : Stored g) :
    f.compare g = some (compare (unpackedPlace f) (unpackedPlace g)) := by
  have hLimit := limit_pos
  cases hf with
  | infinity s =>
    cases hg with
    | infinity s' =>
      cases s <;> cases s'
      · rw [compare_eq_iff_eq.mpr rfl]
        rfl
      · rw [unpackedPlace_infinity_negative, unpackedPlace_infinity_positive,
          compare_lt_iff_lt.mpr (by linarith)]
        rfl
      · rw [unpackedPlace_infinity_negative, unpackedPlace_infinity_positive,
          compare_gt_iff_gt.mpr (by linarith)]
        rfl
      · rw [compare_eq_iff_eq.mpr rfl]
        rfl
    | finite hCanonical hSmall =>
      obtain ⟨hLow, hHigh⟩ := abs_lt.mp hSmall
      cases s with
      | positive =>
        rw [unpackedPlace_infinity_positive, compare_gt_iff_gt.mpr hHigh]
        cases hCanonical <;> rfl
      | negative =>
        rw [unpackedPlace_infinity_negative, compare_lt_iff_lt.mpr hLow]
        cases hCanonical <;> rfl
  | finite hCanonical hSmall =>
    obtain ⟨hLow, hHigh⟩ := abs_lt.mp hSmall
    cases hg with
    | infinity s' =>
      cases s' with
      | positive =>
        rw [unpackedPlace_infinity_positive, compare_lt_iff_lt.mpr hHigh]
        cases hCanonical <;> rfl
      | negative =>
        rw [unpackedPlace_infinity_negative, compare_gt_iff_gt.mpr hLow]
        cases hCanonical <;> rfl
    | finite hCanonical' hSmall' => exact compare_canonical hCanonical hCanonical'

/-! ## Floating-point numbers -/

/-- Where a number stands. -/
def place (x : Float) : ℚ := unpackedPlace x.toModel.unpack

/-- The number is one. -/
def Proper (x : Float) : Prop := Stored x.toModel.unpack

theorem proper_of_isFinite {x : Float} (h : x.isFinite = true) : Proper x := by
  rcases stored_unpack x.toModel.toBits.toBitVec with hNone | hStored
  · have hFinite : (UnpackedFloat.unpack binary64 x.toModel.toBits.toBitVec).isFinite = true := h
    rw [hNone] at hFinite
    cases hFinite
  · exact hStored

theorem Stored.canonical {f : UnpackedFloat} (h : Stored f) (hFinite : f.isFinite = true) :
    Canonical f := by
  cases h with
  | infinity s => cases hFinite
  | finite hCanonical _ => exact hCanonical

theorem canonical_of_isFinite {x : Float} (h : x.isFinite = true) :
    Canonical x.toModel.unpack := (proper_of_isFinite h).canonical h

variable {x y z : Float}

theorem compare_eq_place (hx : Proper x) (hy : Proper y) :
    x.toModel.unpack.compare y.toModel.unpack = some (compare (place x) (place y)) :=
  compare_stored hx hy

theorem le_iff_place (hx : Proper x) (hy : Proper y) : x ≤ y ↔ place x ≤ place y := by
  have hLe : x ≤ y ↔ x.toModel.unpack.le y.toModel.unpack = true := decide_eq_true_iff
  rw [hLe, UnpackedFloat.le, compare_eq_place hx hy, Option.any_some, Ordering.isLE_iff_ne_gt]
  exact compare_le_iff_le

theorem lt_iff_place (hx : Proper x) (hy : Proper y) : x < y ↔ place x < place y := by
  have hLt : x < y ↔ x.toModel.unpack.lt y.toModel.unpack = true := decide_eq_true_iff
  rw [hLt, UnpackedFloat.lt, compare_eq_place hx hy, beq_iff_eq, Option.some_inj,
    compare_lt_iff_lt]

theorem beq_iff_place (hx : Proper x) (hy : Proper y) : (x == y) = true ↔ place x = place y := by
  have hEq : (x == y) = x.toModel.unpack.beq y.toModel.unpack := rfl
  rw [hEq, UnpackedFloat.beq, compare_eq_place hx hy, beq_iff_eq, Option.some_inj,
    compare_eq_iff_eq]

/-- What is between two proper numbers is the case for one of the orders. -/
theorem lt_of_not_le (hx : Proper x) (hy : Proper y) (h : ¬ x ≤ y) : y < x := by
  rw [le_iff_place hx hy, not_le] at h
  exact (lt_iff_place hy hx).mpr h

/-- A result that was rounded is proper and stands where it was rounded to. -/
theorem place_pack {f : UnpackedFloat} {exact : ℚ} (h : RoundsTo exact f) :
    Proper (.ofModel (.pack f)) ∧
      ∃ y, Rounds exact y ∧ place (.ofModel (.pack f)) = cutOff y := by
  obtain ⟨hStored, hPlace⟩ := unpack_pack h.canonical
  exact ⟨hStored, unpackedPlace f, h.rounds, hPlace⟩

theorem place_zero : place 0.0 = 0 := rfl

theorem proper_zero : Proper 0.0 := proper_of_isFinite (by decide)

theorem place_one : place 1.0 = 1 := by
  have h : (1.0 : Float).toModel.unpack = .finite .positive (2 ^ 52) (-52) (by decide) := rfl
  rw [place, h, unpackedPlace_finite_positive]
  norm_num

theorem abs_place_le (h : Proper x) : |place x| ≤ limit := by
  have hLimit := limit_pos
  unfold place
  obtain ⟨f, hf⟩ : ∃ f, x.toModel.unpack = f := ⟨_, rfl⟩
  rw [Proper, hf] at h
  rw [hf]
  cases h with
  | infinity s => cases s <;> simp [abs_of_pos hLimit]
  | finite _ lt => exact lt.le

theorem abs_place_lt (h : x.isFinite = true) : |place x| < limit := by
  have hProper := proper_of_isFinite h
  have hFinite : x.toModel.unpack.isFinite = true := h
  unfold place
  obtain ⟨f, hf⟩ : ∃ f, x.toModel.unpack = f := ⟨_, rfl⟩
  rw [Proper, hf] at hProper
  rw [hf] at hFinite ⊢
  cases hProper with
  | infinity s => cases hFinite
  | finite _ lt => exact lt

/-- A proper number that is not finite stands at the end of the line. -/
theorem unpack_of_not_isFinite (hx : Proper x) (h : x.isFinite = false) :
    ∃ s, x.toModel.unpack = .infinity s := by
  have hFinite : x.toModel.unpack.isFinite = false := h
  obtain ⟨f, hf⟩ : ∃ f, x.toModel.unpack = f := ⟨_, rfl⟩
  rw [Proper, hf] at hx
  rw [hf] at hFinite ⊢
  cases hx with
  | infinity s => exact ⟨s, rfl⟩
  | finite hCanonical _ => cases hCanonical <;> cases hFinite

theorem place_of_not_isFinite (hx : Proper x) (h : x.isFinite = false) :
    place x = limit ∨ place x = -limit := by
  obtain ⟨s, hs⟩ := unpack_of_not_isFinite hx h
  rw [place, hs]
  cases s with
  | positive => exact .inl unpackedPlace_infinity_positive
  | negative => exact .inr unpackedPlace_infinity_negative

theorem place_pack_infinity (s : Sign) :
    Proper (.ofModel (.pack (.infinity s))) ∧
      place (.ofModel (.pack (.infinity s))) = factor s * limit := by
  have hEq : UnpackedFloat.unpack binary64 (packedInfinity binary64 s) = .infinity s :=
    unpack_packComponents s (-1#_) 0
  have hStored : Stored (UnpackedFloat.unpack binary64 (packedInfinity binary64 s)) :=
    hEq ▸ .infinity s
  exact ⟨hStored, congrArg unpackedPlace hEq⟩

/-! ## Operations keep the order -/

theorem place_div (hx : x.isFinite = true) (hz : z.isFinite = true) (hne : place z ≠ 0) :
    Proper (x / z) ∧ ∃ v, Rounds (place x / place z) v ∧ place (x / z) = cutOff v :=
  place_pack (roundsTo_div (canonical_of_isFinite hx) (canonical_of_isFinite hz) hne)

theorem place_sub (hx : x.isFinite = true) (hz : z.isFinite = true) :
    Proper (x - z) ∧ ∃ v, Rounds (place x - place z) v ∧ place (x - z) = cutOff v :=
  place_pack (roundsTo_sub (canonical_of_isFinite hx) (canonical_of_isFinite hz))

theorem place_add (hx : x.isFinite = true) (hz : z.isFinite = true) :
    Proper (x + z) ∧ ∃ v, Rounds (place x + place z) v ∧ place (x + z) = cutOff v :=
  place_pack (roundsTo_add (canonical_of_isFinite hx) (canonical_of_isFinite hz))

/-- Taking a finite number from an infinity changes nothing. -/
theorem place_sub_of_not_isFinite (hx : Proper x) (h : x.isFinite = false)
    (hz : z.isFinite = true) : Proper (x - z) ∧ place (x - z) = place x := by
  obtain ⟨s, hs⟩ := unpack_of_not_isFinite hx h
  have hSub : x - z = .ofModel (.pack (.infinity s)) := by
    change Float.ofModel (.pack (UnpackedFloat.sub binary64 x.toModel.unpack z.toModel.unpack)) = _
    rw [hs]
    obtain ⟨g, hg⟩ : ∃ g, z.toModel.unpack = g := ⟨_, rfl⟩
    have hCanonical := canonical_of_isFinite hz
    rw [hg] at hCanonical ⊢
    cases hCanonical <;> rfl
  have hPlace : place x = factor s * limit := congrArg unpackedPlace hs
  rw [hSub, hPlace]
  exact place_pack_infinity s

theorem place_add_of_not_isFinite (hx : Proper x) (h : x.isFinite = false)
    (hz : z.isFinite = true) : Proper (x + z) ∧ place (x + z) = place x := by
  obtain ⟨s, hs⟩ := unpack_of_not_isFinite hx h
  have hAdd : x + z = .ofModel (.pack (.infinity s)) := by
    change Float.ofModel (.pack (UnpackedFloat.add binary64 x.toModel.unpack z.toModel.unpack)) = _
    rw [hs]
    obtain ⟨g, hg⟩ : ∃ g, z.toModel.unpack = g := ⟨_, rfl⟩
    have hCanonical := canonical_of_isFinite hz
    rw [hg] at hCanonical ⊢
    cases hCanonical <;> rfl
  have hPlace : place x = factor s * limit := congrArg unpackedPlace hs
  rw [hAdd, hPlace]
  exact place_pack_infinity s

/-- An operation computes a function, but for rounding, and leaves the infinities where they are. -/
structure Computes (op : Float → Float) (f : ℚ → ℚ) : Prop where
  finite : ∀ {x}, x.isFinite = true →
    Proper (op x) ∧ ∃ v, Rounds (f (place x)) v ∧ place (op x) = cutOff v
  infinite : ∀ {x}, Proper x → x.isFinite = false → Proper (op x) ∧ place (op x) = place x

namespace Computes

variable {op : Float → Float} {f : ℚ → ℚ}

theorem proper (h : Computes op f) (hx : Proper x) : Proper (op x) := by
  cases hFinite : x.isFinite with
  | true => exact (h.finite hFinite).1
  | false => exact (h.infinite hx hFinite).1

/-- What keeps the order keeps it when it is computed. Nothing is beyond the infinities. -/
theorem place_le (h : Computes op f) (hf : Monotone f) (hx : Proper x) (hy : Proper y)
    (hLe : place x ≤ place y) : place (op x) ≤ place (op y) := by
  obtain ⟨hLow, -⟩ := abs_le.mp (abs_place_le (h.proper hy))
  obtain ⟨-, hHigh⟩ := abs_le.mp (abs_place_le (h.proper hx))
  cases hFinite : x.isFinite with
  | false =>
    have hPlace := (h.infinite hx hFinite).2
    rcases place_of_not_isFinite hx hFinite with hEnd | hEnd
    · have hTop : place y = limit := le_antisymm (abs_le.mp (abs_place_le hy)).2 (hEnd ▸ hLe)
      have hFinite' : y.isFinite = false := by
        by_contra hTrue
        have := (abs_lt.mp (abs_place_lt (Bool.not_eq_false _ ▸ hTrue))).2
        linarith
      rw [hPlace, (h.infinite hy hFinite').2]
      exact hLe
    · rw [hPlace, hEnd]
      exact hLow
  | true =>
    cases hFinite' : y.isFinite with
    | false =>
      rcases place_of_not_isFinite hy hFinite' with hEnd | hEnd
      · rw [(h.infinite hy hFinite').2, hEnd]
        exact hHigh
      · have := (abs_lt.mp (abs_place_lt hFinite)).1
        linarith
    | true =>
      obtain ⟨-, v, hv, hPlace⟩ := h.finite hFinite
      obtain ⟨-, w, hw, hPlace'⟩ := h.finite hFinite'
      rw [hPlace, hPlace']
      exact cutOff_mono (hv.mono hw (hf hLe))

end Computes

theorem computes_sub (hz : z.isFinite = true) : Computes (· - z) (· - place z) where
  finite hx := place_sub hx hz
  infinite hx h := place_sub_of_not_isFinite hx h hz

theorem computes_add (hz : z.isFinite = true) : Computes (· + z) (· + place z) where
  finite hx := place_add hx hz
  infinite hx h := place_add_of_not_isFinite hx h hz

/-- A positive number is read from its digits. -/
theorem exists_unpack_of_place_pos (hz : z.isFinite = true) (hPos : 0 < place z) :
    ∃ m e hm, z.toModel.unpack = .finite .positive m e hm := by
  have hCanonical := canonical_of_isFinite hz
  obtain ⟨g, hg⟩ : ∃ g, z.toModel.unpack = g := ⟨_, rfl⟩
  rw [place, hg] at hPos
  rw [hg] at hCanonical
  cases hCanonical with
  | zero s => exact absurd hPos (lt_irrefl 0)
  | @finite s m e hm =>
    cases s with
    | positive => exact ⟨m, e, hm, hg⟩
    | negative =>
      rw [unpackedPlace_finite_negative] at hPos
      have : (0 : ℚ) ≤ m * 2 ^ e := by positivity
      linarith

theorem computes_div (hz : z.isFinite = true) (hPos : 0 < place z) :
    Computes (· / z) (· / place z) where
  finite hx := place_div hx hz hPos.ne'
  infinite := by
    intro x hx h
    obtain ⟨s, hs⟩ := unpack_of_not_isFinite hx h
    obtain ⟨m, e, hm, hg⟩ := exists_unpack_of_place_pos hz hPos
    have hDiv : x / z = .ofModel (.pack (.infinity s)) := by
      change Float.ofModel (.pack (UnpackedFloat.div binary64 x.toModel.unpack z.toModel.unpack)) = _
      rw [hs, hg]
      cases s <;> rfl
    have hPlace : place x = factor s * limit := congrArg unpackedPlace hs
    rw [hPlace]
    exact hDiv ▸ place_pack_infinity s

theorem proper_sub (hx : Proper x) (hz : z.isFinite = true) : Proper (x - z) :=
  (computes_sub hz).proper hx

theorem proper_add (hx : Proper x) (hz : z.isFinite = true) : Proper (x + z) :=
  (computes_add hz).proper hx

theorem place_div_le (hx : x.isFinite = true) (hy : y.isFinite = true) (hz : z.isFinite = true)
    (hPos : 0 < place z) (h : place x ≤ place y) : place (x / z) ≤ place (y / z) :=
  (computes_div hz hPos).place_le (fun _ _ hLe => div_le_div_of_nonneg_right hLe hPos.le)
    (proper_of_isFinite hx) (proper_of_isFinite hy) h

theorem place_sub_le (hx : Proper x) (hy : Proper y) (hz : z.isFinite = true)
    (h : place x ≤ place y) : place (x - z) ≤ place (y - z) :=
  (computes_sub hz).place_le (fun _ _ hLe => sub_le_sub_right hLe _) hx hy h

theorem place_add_le (hx : Proper x) (hy : y.isFinite = true) (hz : z.isFinite = true)
    (h : place y ≤ place z) : place (x + y) ≤ place (x + z) := by
  cases hFinite : x.isFinite with
  | true =>
    obtain ⟨-, v, hv, hPlace⟩ := place_add hFinite hy
    obtain ⟨-, w, hw, hPlace'⟩ := place_add hFinite hz
    rw [hPlace, hPlace']
    exact cutOff_mono (hv.mono hw (by linarith))
  | false =>
    rw [(place_add_of_not_isFinite hx hFinite hy).2, (place_add_of_not_isFinite hx hFinite hz).2]

/-! ## Exact results -/

/-- A finite number is in no need of rounding. -/
theorem rounds_place (h : x.isFinite = true) : Rounds (place x) (place x) :=
  (canonical_of_isFinite h).roundsTo.rounds

theorem cutOff_place (h : x.isFinite = true) : cutOff (place x) = place x :=
  cutOff_of_lt (abs_place_lt h)

theorem place_div_self (hx : x.isFinite = true) (hPos : 0 < place x) : place (x / x) = 1 := by
  have hOne : (1.0 : Float).isFinite = true := by decide
  obtain ⟨-, v, hv, hPlace⟩ := place_div hx hx hPos.ne'
  rw [div_self hPos.ne', ← place_one] at hv
  rw [hPlace, hv.unique (rounds_place hOne), cutOff_place hOne, place_one]

theorem place_sub_self (hx : x.isFinite = true) : place (x - x) = 0 := by
  have hZero : (0.0 : Float).isFinite = true := by decide
  obtain ⟨-, v, hv, hPlace⟩ := place_sub hx hx
  rw [sub_self, ← place_zero] at hv
  rw [hPlace, hv.unique (rounds_place hZero), cutOff_place hZero, place_zero]

theorem place_add_zero (hx : Proper x) : place (x + 0.0) = place x := by
  have hZero : (0.0 : Float).isFinite = true := by decide
  cases hFinite : x.isFinite with
  | false => exact (place_add_of_not_isFinite hx hFinite hZero).2
  | true =>
    obtain ⟨-, v, hv, hPlace⟩ := place_add hFinite hZero
    rw [place_zero, add_zero] at hv
    rw [hPlace, hv.unique (rounds_place hFinite), cutOff_place hFinite]

theorem place_zero_add (hx : Proper x) : Proper (0.0 + x) ∧ place (0.0 + x) = place x := by
  have hZero : (0.0 : Float).isFinite = true := by decide
  cases hFinite : x.isFinite with
  | true =>
    obtain ⟨hProper, v, hv, hPlace⟩ := place_add hZero hFinite
    rw [place_zero, zero_add] at hv
    rw [hPlace, hv.unique (rounds_place hFinite), cutOff_place hFinite]
    exact ⟨hProper, rfl⟩
  | false =>
    obtain ⟨s, hs⟩ := unpack_of_not_isFinite hx hFinite
    have hAdd : 0.0 + x = .ofModel (.pack (.infinity s)) := by
      change Float.ofModel (.pack (UnpackedFloat.add binary64 (0.0 : Float).toModel.unpack x.toModel.unpack)) = _
      rw [hs]
      rfl
    have hPlace : place x = factor s * limit := congrArg unpackedPlace hs
    rw [hAdd, hPlace]
    exact place_pack_infinity s

end Loadout.Number.Binary
