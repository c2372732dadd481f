import Loadout.Proofs.Number.Extremes

/-!
# Rounding to decimal places

A number is rounded to decimal places by a product, a rounding to whole numbers and a quotient. The product and
the quotient round what is exact and keep its order; a whole number is found from the digits that a number is
read apart into, and is exact. So what comes before comes before after rounding, infinities included.

* `roundsTo_mul`, `computes_mul`: products;
* `parts_of_isFinite`: a number read apart;
* `place_ofNat`: whole numbers as they are stored;
* `place_round`: the nearest whole number;
* `roundTo_le`: rounding to decimal places.
-/

namespace Loadout.Number.Binary

open Float.Model Float.Model.UnpackedFloat
open Float.Model.Format (binary64)
open Decimal (hiddenBit leastExponent parts)

variable {x y z : Float}

/-! ## Products -/

theorem factor_mul (s t : Sign) : factor (s * t) = factor s * factor t := by
  cases s <;> cases t
  · exact (by norm_num : (1 : ℚ) = -1 * -1)
  · exact (by norm_num : (-1 : ℚ) = -1 * 1)
  · exact (by norm_num : (-1 : ℚ) = 1 * -1)
  · exact (by norm_num : (1 : ℚ) = 1 * 1)

/-- A product has all the digits for its unit: unless it is of numbers in units of the least exponent, one of
the two has as many already. -/
theorem add_le_targetExponent {m₁ m₂ : ℕ} {e₁ e₂ : ℤ} (h₁ : 0 < m₁) (h₂ : 0 < m₂)
    (c₁ : e₁ = -1074 ∨ 2 ^ 52 ≤ m₁) (c₂ : e₂ = -1074 ∨ 2 ^ 52 ≤ m₂) :
    e₁ + e₂ ≤ binary64.targetExponent (totalExponent (m₁ * m₂) (e₁ + e₂)) := by
  have hLeft : m₁ ≤ m₁ * m₂ := Nat.le_mul_of_pos_right m₁ h₂
  have hRight : m₂ ≤ m₁ * m₂ := Nat.le_mul_of_pos_left m₂ h₁
  rw [targetExponent_binary64, totalExponent]
  by_cases hDigits : 2 ^ 52 ≤ m₁ * m₂
  · have hLog : 52 ≤ (m₁ * m₂).log2 := (Nat.le_log2 (by omega)).mpr hDigits
    exact le_trans (by omega) (le_max_left _ _)
  · exact le_trans (by omega) (le_max_right _ _)

theorem roundsTo_mul {f g : UnpackedFloat} (hf : Canonical f) (hg : Canonical g) :
    RoundsTo (unpackedPlace f * unpackedPlace g) (UnpackedFloat.mul binary64 f g) := by
  cases hf with
  | zero s =>
    rw [unpackedPlace_zero, zero_mul]
    cases hg <;> exact roundsTo_zero _
  | @finite s m e hm lt least_le le =>
    cases hg with
    | zero s' =>
      rw [unpackedPlace_zero, mul_zero]
      exact roundsTo_zero _
    | @finite s' m' e' hm' lt' least_le' le' =>
      have hExact : unpackedPlace (.finite s m e hm) * unpackedPlace (.finite s' m' e' hm') =
          factor (s * s') * ((m * m' : ℕ) * 2 ^ (e + e')) := by
        rw [unpackedPlace, unpackedPlace, factor_mul, zpow_add₀ two_ne_zero]
        push_cast
        ring
      rw [hExact]
      refine roundsTo_roundWithAccuracy (s * s') ?_ (add_le_targetExponent hm hm' le le')
      rw [mul_div_cancel_right₀ _ (by positivity)]
      exact .exact rfl

theorem computes_mul (hz : z.isFinite = true) (hPos : 0 < place z) :
    Computes (· * z) (· * place z) where
  finite hx := place_pack (roundsTo_mul (canonical_of_isFinite hx) (canonical_of_isFinite hz))
  infinite := by
    intro x hx h
    obtain ⟨s, hs⟩ := unpack_of_not_isFinite hx h
    obtain ⟨m, e, hm, hg⟩ := exists_unpack_of_place_pos hz hPos
    have hMul : x * z = .ofModel (.pack (.infinity s)) := by
      change Float.ofModel (.pack (UnpackedFloat.mul binary64 x.toModel.unpack z.toModel.unpack)) = _
      rw [hs, hg]
      cases s <;> rfl
    have hPlace : place x = factor s * limit := congrArg unpackedPlace hs
    rw [hPlace]
    exact hMul ▸ place_pack_infinity s

/-! ## Numbers read apart -/

theorem isFinite_iff_field :
    x.isFinite = true ↔ x.toBits.toNat / hiddenBit % 2048 ≠ 2047 := by
  have hFinite : x.isFinite = (UnpackedFloat.unpack binary64 x.toBits.toBitVec).isFinite := rfl
  obtain ⟨field, hField⟩ : ∃ v : BitVec 11, v = @unpackExponent binary64 x.toBits.toBitVec := ⟨_, rfl⟩
  have hNat : x.toBits.toNat / hiddenBit % 2048 = field.toNat :=
    hField ▸ (toNat_unpackExponent x.toBits.toBitVec).symm
  rw [hFinite, hNat]
  unfold UnpackedFloat.unpack
  simp only [← hField]
  split
  · rename_i hOnes
    have hOnes' : field.toNat = 2047 := by rw [hOnes]; rfl
    rw [hOnes']
    split <;> exact iff_of_false Bool.false_ne_true (fun h => h rfl)
  · rename_i hOnes
    refine iff_of_true ?_ fun h => hOnes (BitVec.eq_of_toNat_eq h)
    split
    · split <;> rfl
    · rfl

/-- The magnitude by the field for the exponent and the digits. -/
theorem magnitude_mod (bits : ℕ) : magnitude (bits % 2 ^ 63) =
    if bits / hiddenBit % 2048 = 0 then ((bits % hiddenBit : ℕ) : ℚ) * 2 ^ leastExponent
    else (hiddenBit + bits % hiddenBit : ℕ) *
      2 ^ (((bits / hiddenBit % 2048 : ℕ) : ℤ) - 1 + leastExponent) := by
  unfold hiddenBit leastExponent magnitude
  split
  · rename_i hField
    rw [if_pos (by omega), (by omega : bits % 2 ^ 63 = bits % 0x10000000000000)]
  · rename_i hField
    rw [if_neg (by omega), (by omega : bits % 2 ^ 63 % 2 ^ 52 = bits % 0x10000000000000),
      (by omega : bits % 2 ^ 63 / 2 ^ 52 = bits / 0x10000000000000 % 2048), sub_add]
    rfl

/-- A finite number is read apart into its sign and a magnitude of at most 53 digits. -/
theorem parts_of_isFinite (h : x.isFinite = true) : ∃ negative m e,
    parts x = .finite negative m e ∧ m < 2 ^ 53 ∧
      place x = if negative then -(m * 2 ^ e : ℚ) else m * 2 ^ e := by
  obtain ⟨bits, hBits⟩ : ∃ n, n = x.toBits.toNat := ⟨_, rfl⟩
  have hPlace : place x = if decide (bits / 0x8000000000000000 = 1) then -magnitude (bits % 2 ^ 63)
      else magnitude (bits % 2 ^ 63) := by
    have hLt : bits < 2 ^ 64 := hBits ▸ x.toBits.toBitVec.isLt
    rw [place_eq_magnitude h, ← hBits]
    by_cases hSign : bits < 2 ^ 63
    · rw [if_pos hSign, if_neg (by simp; omega), Nat.mod_eq_of_lt hSign]
    · rw [if_neg hSign, if_pos (by simp; omega), (by omega : bits % 2 ^ 63 = bits - 2 ^ 63)]
  have hDigits : bits % hiddenBit < 2 ^ 52 := Nat.mod_lt _ (by decide)
  have hBit : hiddenBit = 2 ^ 52 := rfl
  rw [hPlace, magnitude_mod]
  unfold parts
  dsimp only
  rw [← hBits, if_neg (hBits ▸ isFinite_iff_field.mp h)]
  by_cases hField : bits / hiddenBit % 2048 = 0
  · rw [if_pos hField, if_pos hField]
    exact ⟨_, _, _, rfl, by omega, rfl⟩
  · rw [if_neg hField, if_neg hField]
    exact ⟨_, _, _, rfl, by omega, rfl⟩

theorem toWhole_of_not_isFinite (h : x.isFinite = false) (up : Bool → ℕ → ℕ → Bool) :
    toWhole up x = x := by
  have hField : x.toBits.toNat / hiddenBit % 2048 = 2047 := by
    by_contra hNe
    rw [isFinite_iff_field.mpr hNe] at h
    cases h
  unfold toWhole parts
  dsimp only
  rw [if_pos hField]
  split
  · rename_i hParts
    split at hParts <;> cases hParts
  · rfl

/-! ## Whole numbers -/

theorem rounds_natCast {n : ℕ} (h : n < 2 ^ 53) : Rounds (n : ℚ) n := by
  rcases Nat.eq_zero_or_pos n with rfl | hPos
  · simpa using (roundsTo_zero .positive).rounds
  · have hLog : n.log2 < 53 := (Nat.log2_lt hPos.ne').mpr h
    obtain ⟨e, he⟩ : ∃ e : ℤ, e + 52 = n.log2 := ⟨n.log2 - 52, by omega⟩
    obtain ⟨k, hk⟩ : ∃ k : ℕ, e = -k := ⟨(-e).toNat, by omega⟩
    have hCast : ((n * 2 ^ k : ℕ) : ℤ) * 2 ^ e = (n : ℚ) := by
      rw [hk, zpow_neg, zpow_natCast]
      push_cast
      field_simp
    have hLow : (2 : ℚ) ^ (e + 52) ≤ n := by
      rw [he, zpow_natCast]
      exact_mod_cast Nat.log2_self_le hPos.ne'
    have hHigh : (n : ℚ) < 2 ^ (e + 53) := by
      rw [(by omega : e + 53 = ((n.log2 + 1 : ℕ) : ℤ)), zpow_natCast]
      exact_mod_cast Nat.lt_log2_self
    have hUnit : UnitExponent (n : ℚ) e :=
      ⟨by omega, by rwa [Nat.abs_cast], .inr (by rwa [Nat.abs_cast])⟩
    rw [← hCast] at hUnit ⊢
    exact Rounds.self hUnit

theorem place_eq_natCast {n : ℕ} (h : n < 2 ^ 53)
    (hRounded : Proper x ∧ ∃ v, Rounds (n : ℚ) v ∧ place x = cutOff v) : x.isFinite = true ∧ place x = n := by
  obtain ⟨hProper, v, hv, hPlace⟩ := hRounded
  have hLimit : |(n : ℚ)| < limit := by
    rw [Nat.abs_cast]
    simpa using mul_zpow_lt_of_le h (e := 0) (by norm_num)
  rw [hv.unique (rounds_natCast h), cutOff_of_lt hLimit] at hPlace
  exact ⟨(isFinite_iff_place hProper).mpr (hPlace ▸ hLimit), hPlace⟩

/-- A whole number of no more than 53 digits is stored as it is. -/
theorem place_ofNat {n : ℕ} (h : n < 2 ^ 53) :
    (Float.ofNat n).isFinite = true ∧ place (Float.ofNat n) = n := by
  have hOne : (Float.ofBits 4607182418800017408).isFinite = true := by decide
  have hPlaceOne : place (Float.ofBits 4607182418800017408) = 1 := place_one
  have hToNat : n.toUInt64.toNat = n := Nat.mod_eq_of_lt (by omega)
  have hWord : n.toUInt64.toFloat = .ofModel (.pack (normalize binary64 n 0 .positive)) := by
    change Float.ofModel (.pack (normalize binary64 n.toUInt64.toNat 0 .positive)) = _
    rw [hToNat]
  have hOfNat : Float.ofNat n = n.toUInt64.toFloat * Float.ofBits 4607182418800017408 := by
    change Float.ofScientific n false 0 = _
    unfold Float.ofScientific
    rw [dif_pos ⟨h, by norm_num⟩]
    rfl
  have hRounded := place_pack (roundsTo_normalize n 0 .positive)
  rw [zpow_zero, mul_one, Int.cast_natCast, ← hWord] at hRounded
  obtain ⟨hFinite, hPlace⟩ := place_eq_natCast h hRounded
  -- The product with one is rounded again.
  have hMul := (computes_mul hOne (hPlaceOne ▸ one_pos)).finite hFinite
  rw [hPlace, hPlaceOne, mul_one] at hMul
  rw [hOfNat]
  exact place_eq_natCast h hMul

/-! ## The nearest whole number -/

/-- The nearest whole number, a half going away from zero. -/
def halfAway (q : ℚ) : ℚ := if q < 0 then -⌊-q + 1 / 2⌋ else ⌊q + 1 / 2⌋

theorem halfAway_of_nonneg {q : ℚ} (h : 0 ≤ q) : halfAway q = ⌊q + 1 / 2⌋ := if_neg h.not_gt

theorem halfAway_neg (q : ℚ) : halfAway (-q) = -halfAway q := by
  unfold halfAway
  rcases lt_trichotomy q 0 with h | rfl | h
  · rw [if_neg (by linarith), if_pos h, neg_neg]
  · norm_num
  · rw [if_pos (by linarith), if_neg h.not_gt, neg_neg]

theorem halfAway_nonneg {q : ℚ} (h : 0 ≤ q) : 0 ≤ halfAway q := by
  rw [halfAway_of_nonneg h]
  exact_mod_cast Int.floor_nonneg.mpr (by linarith)

theorem halfAway_mono : Monotone halfAway := by
  have hNonneg {p q : ℚ} (hp : 0 ≤ p) (h : p ≤ q) : halfAway p ≤ halfAway q := by
    rw [halfAway_of_nonneg hp, halfAway_of_nonneg (hp.trans h)]
    exact_mod_cast Int.floor_mono (by linarith)
  intro p q h
  rcases le_total 0 p with hp | hp
  · exact hNonneg hp h
  · rcases le_total 0 q with hq | hq
    · have hLow := halfAway_nonneg (neg_nonneg.mpr hp)
      rw [halfAway_neg] at hLow
      exact (neg_nonneg.mp hLow).trans (halfAway_nonneg hq)
    · have := hNonneg (neg_nonneg.mpr hq) (neg_le_neg h)
      rw [halfAway_neg, halfAway_neg] at this
      exact neg_le_neg_iff.mp this

theorem halfAway_intCast (n : ℤ) : halfAway n = n := by
  have hFloor (n : ℤ) : ⌊(n : ℚ) + 1 / 2⌋ = n := by
    rw [Int.floor_intCast_add]
    norm_num
  have hNeg := hFloor (-n)
  push_cast at hNeg
  unfold halfAway
  rw [hFloor, hNeg]
  split <;> simp

theorem halfAway_mul_two_pow (m k : ℕ) : halfAway (m * 2 ^ (k : ℤ)) = m * 2 ^ (k : ℤ) := by
  have hWhole := halfAway_intCast (m * 2 ^ k)
  push_cast at hWhole
  exact hWhole

/-- The nearest whole number is found from the rest of the division by the unit. -/
theorem halfAway_div {m u : ℕ} (hu : 0 < u) :
    halfAway (m / u : ℚ) = (m / u + if u ≤ 2 * (m % u) then 1 else 0 : ℕ) := by
  obtain ⟨q, hq⟩ : ∃ q, q = m / u := ⟨_, rfl⟩
  obtain ⟨r, hr⟩ : ∃ r, r = m % u := ⟨_, rfl⟩
  have hUnit : (0 : ℚ) < u := by exact_mod_cast hu
  have hRest : (r : ℚ) < u := by exact_mod_cast hr ▸ Nat.mod_lt m hu
  have hSplit : (m : ℚ) = u * q + r := by exact_mod_cast hq ▸ hr ▸ (Nat.div_add_mod m u).symm
  have hQuotient : (m : ℚ) / u = q + r / u := by
    rw [hSplit]
    field_simp
  rw [halfAway_of_nonneg (by positivity), ← hq, ← hr]
  suffices h : ⌊(m / u : ℚ) + 1 / 2⌋ = ((q + if u ≤ 2 * r then 1 else 0 : ℕ) : ℤ) by
    rw [h, Int.cast_natCast]
  rw [Int.floor_eq_iff, hQuotient]
  split
  · rename_i hHalf
    have hHalf' : (u : ℚ) ≤ 2 * r := by exact_mod_cast hHalf
    have hLow : (1 : ℚ) / 2 ≤ r / u := by rw [le_div_iff₀ hUnit]; linarith
    have hHigh : (r : ℚ) / u < 1 := (div_lt_one hUnit).mpr hRest
    push_cast
    constructor <;> linarith
  · rename_i hHalf
    have hHalf' : 2 * (r : ℚ) < u := by exact_mod_cast not_le.mp hHalf
    have hLow : (0 : ℚ) ≤ r / u := by positivity
    have hHigh : (r : ℚ) / u < 1 / 2 := by rw [div_lt_iff₀ hUnit]; linarith
    push_cast
    constructor <;> linarith

/-- Rounding to whole numbers is exact. -/
theorem place_round (h : x.isFinite = true) :
    (round x).isFinite = true ∧ place (round x) = halfAway (place x) := by
  obtain ⟨negative, m, e, hParts, hm, hPlace⟩ := parts_of_isFinite h
  unfold round toWhole
  rw [hParts]
  dsimp only
  split
  · rename_i he
    obtain ⟨k, rfl⟩ := Int.eq_ofNat_of_zero_le he
    refine ⟨h, ?_⟩
    rw [hPlace]
    split
    · rw [halfAway_neg, halfAway_mul_two_pow]
    · rw [halfAway_mul_two_pow]
  · rename_i he
    obtain ⟨k, rfl⟩ : ∃ k : ℕ, e = -(k + 1 : ℕ) := ⟨(-e - 1).toNat, by omega⟩
    obtain ⟨unit, hUnit⟩ : ∃ u, u = 2 ^ (k + 1) := ⟨_, rfl⟩
    have hTwo : 2 ≤ unit := hUnit ▸ Nat.le_self_pow k.succ_ne_zero 2
    have hMagnitude : (m : ℚ) * 2 ^ (-(k + 1 : ℕ) : ℤ) = m / unit := by
      rw [zpow_neg, zpow_natCast, hUnit]
      push_cast
      rw [div_eq_mul_inv]
    have hAbs : Nat.pow 2 (-(k + 1 : ℕ) : ℤ).natAbs = unit := by
      rw [Int.natAbs_neg, Int.natAbs_natCast, hUnit]
      rfl
    rw [hMagnitude] at hPlace
    rw [hAbs, hPlace]
    simp only [decide_eq_true_eq]
    have hSmall : m / unit + (if unit ≤ 2 * (m % unit) then 1 else 0) < 2 ^ 53 := by
      have : m / unit ≤ m / 2 := Nat.div_le_div_left hTwo two_pos
      split <;> omega
    obtain ⟨hFinite, hOfNat⟩ := place_ofNat hSmall
    rw [← halfAway_div (by omega)] at hOfNat
    cases negative with
    | false => exact ⟨hFinite, hOfNat⟩
    | true =>
      obtain ⟨hProper, hNeg⟩ := place_neg (proper_of_isFinite hFinite)
      rw [if_pos rfl, if_pos rfl, isFinite_iff_place hProper, hNeg, abs_neg, hOfNat, halfAway_neg]
      exact ⟨hOfNat ▸ abs_place_lt hFinite, rfl⟩

theorem computes_round : Computes round halfAway where
  finite h := by
    obtain ⟨hFinite, hPlace⟩ := place_round h
    rw [← hPlace]
    exact ⟨proper_of_isFinite hFinite, _, rounds_place hFinite, (cutOff_place hFinite).symm⟩
  infinite hx h := by
    rw [round, toWhole_of_not_isFinite h]
    exact ⟨hx, rfl⟩

/-! ## Decimal places -/

/-- Rounding to decimal places keeps the order. -/
theorem roundTo_le {n : ℤ} (hFactor : (tenTo n : Float).isFinite = true) (hPos : 0 < place (tenTo n))
    (h : x ≤ y) : roundTo x n ≤ roundTo y n := by
  obtain ⟨hx, hy⟩ := proper_of_le h
  have hMul := computes_mul hFactor hPos
  have hDiv := computes_div hFactor hPos
  have hLe : place (x * tenTo n) ≤ place (y * tenTo n) :=
    hMul.place_le (fun _ _ h => mul_le_mul_of_nonneg_right h hPos.le) hx hy ((le_iff_place hx hy).mp h)
  have hRound : place (round (x * tenTo n)) ≤ place (round (y * tenTo n)) :=
    computes_round.place_le halfAway_mono (hMul.proper hx) (hMul.proper hy) hLe
  have hProper (x : Float) (hx : Proper x) := computes_round.proper (hMul.proper hx)
  refine (le_iff_place (hDiv.proper (hProper x hx)) (hDiv.proper (hProper y hy))).mpr ?_
  exact hDiv.place_le (fun _ _ h => div_le_div_of_nonneg_right h hPos.le) (hProper x hx) (hProper y hy) hRound

theorem tenTo_two : (tenTo 2 : Float) = 100.0 := by decide +kernel

theorem roundTo_two_le (h : x ≤ y) : roundTo x 2 ≤ roundTo y 2 := by
  have hFinite : (100.0 : Float).isFinite = true := by decide
  have hLt : (0.0 : Float) < 100.0 := by decide
  have hPos : 0 < place 100.0 := place_zero ▸ (lt_iff_place proper_zero (proper_of_isFinite hFinite)).mp hLt
  exact roundTo_le (tenTo_two ▸ hFinite) (tenTo_two ▸ hPos) h

end Loadout.Number.Binary
