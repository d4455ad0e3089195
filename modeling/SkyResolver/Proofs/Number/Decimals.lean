import SkyResolver.Number.Read
import SkyResolver.Proofs.Number.Arithmetic

/-! Decimal numbers. A text of digits is read as the double that is nearest to the number it stands
for, and the numbers that are written out in the program are the ones that they look like. -/
namespace SkyResolver.Number
open Float.Model Float.Model.UnpackedFloat

/-! ### Constants -/

/-- A check on natural numbers that a double is a fraction of them. -/
def isFraction (x : Float) (n d : ℕ) : Bool :=
  (Binary.ofFloat? x).any fun b => !b.negative &&
    b.mantissa * twoTo b.exponent.toNat * d == n * twoTo (-b.exponent).toNat

lemma hasValue_of_isFraction {x : Float} {n d : ℕ} (hd : 0 < d) (h : isFraction x n d = true) :
    HasValue x (n / d) := by
  rw [isFraction, Option.any_eq_true] at h
  obtain ⟨b, hb, hcheck⟩ := h
  rw [Bool.and_eq_true, Bool.not_eq_true', beq_iff_eq] at hcheck
  obtain ⟨hsign, hcheck⟩ := hcheck
  refine hasValue_iff.2 ⟨b, hb, ?_⟩
  have hd : (0 : ℚ) < d := by exact_mod_cast hd
  have hcast : (b.mantissa : ℚ) * 2 ^ b.exponent.toNat * d = n * 2 ^ (-b.exponent).toNat := by
    have : ((b.mantissa * twoTo b.exponent.toNat * d : ℕ) : ℚ) =
        ((n * twoTo (-b.exponent).toNat : ℕ) : ℚ) :=
      congrArg Nat.cast hcheck
    simpa [twoTo] using this
  rw [Binary.value, hsign, if_neg Bool.false_ne_true, one_mul, eq_div_iff hd.ne']
  refine mul_right_cancel₀ (pow_ne_zero (-b.exponent).toNat (two_ne_zero (α := ℚ))) ?_
  rw [← hcast, ← two_zpow_mul_toNat b.exponent]
  ring

lemma hasValue_of_isNat {x : Float} {n : ℕ} (h : isFraction x n 1 = true) : HasValue x n := by
  simpa using hasValue_of_isFraction one_pos h

lemma hasValue_powerOfTen {e : ℕ} (h : e < 23) :
    HasValue Float.exactlyRepresentablePowersOfTen[e] (10 ^ e : ℕ) := by
  have hall : ∀ e : Fin 23, isFraction Float.exactlyRepresentablePowersOfTen[e]
      (10 ^ e.val) 1 = true := by
    decide +kernel
  exact hasValue_of_isNat (hall ⟨e, h⟩)

/-! ### Scientific notation -/

section Scientific
variable {n : ℕ} {e : ℤ}

lemma hasValue_toFloat (h : n < 2 ^ 53) : HasValue n.toUInt64.toFloat n := by
  have hn : n.toUInt64.toNat = n := Nat.mod_eq_of_lt (by omega)
  have hrepresentable := representable_natCast h.le
  have hbound : |(n : ℚ)| < 2 ^ (1024 : ℤ) := by
    rw [Nat.abs_cast]
    calc (n : ℚ) < 2 ^ 53 := by exact_mod_cast h
      _ ≤ 2 ^ (1024 : ℤ) := two_zpow_le (e := 53) (by norm_num)
  have hdenotes : Denotes (normalize Format.binary64 n 0 .positive) (nearest n) :=
    denotes_normalize (by simp) (by rwa [hrepresentable.nearest_eq])
  rw [hrepresentable.nearest_eq] at hdenotes
  refine hasValue_pack (u := .ofUInt64 Format.binary64 n.toUInt64) ?_
  rwa [UnpackedFloat.ofUInt64, hn]

lemma ten_zpow_of_neg (h : e < 0) : (10 : ℚ) ^ e = 1 / 10 ^ e.natAbs := by
  rw [show e = -(e.natAbs : ℤ) by omega, zpow_neg, zpow_natCast, Int.natAbs_neg,
    Int.natAbs_natCast, one_div]

lemma ten_zpow_of_nonneg (h : 0 ≤ e) : (10 : ℚ) ^ e = 10 ^ e.natAbs := by
  rw [show e = (e.natAbs : ℤ) by omega, zpow_natCast, Int.natAbs_natCast]

lemma denotes_ofScientific (hn : n ≠ 0) (hlow : -(2048 + n.log2 : ℤ) ≤ e) (hhigh : e ≤ 2048)
    (hbound : nearest (n * 10 ^ e) < 2 ^ (1024 : ℤ)) :
    Denotes (UnpackedFloat.ofScientific Format.binary64 n e) (nearest (n * 10 ^ e)) := by
  have hsize : ((2 : ℤ) ^ Format.binary64.exponentBits) = 2048 := rfl
  unfold UnpackedFloat.ofScientific
  rw [dif_neg hn, if_neg (by rw [hsize]; omega), if_neg (by rw [hsize]; omega)]
  split_ifs with he
  · have hshift := cast_shiftLeft_mul n Format.binary64.mantissaBits 0
    rw [zero_sub, zpow_zero, mul_one] at hshift
    have hvalue : (n : ℚ) * 10 ^ e =
        ((n <<< Format.binary64.mantissaBits : ℕ) * 2 ^ (-(Format.binary64.mantissaBits : ℤ))) *
          ((10 ^ e.toNat : ℕ) * 2 ^ (0 : ℤ)) := by
      rw [hshift, ten_zpow_of_nonneg he, show e.natAbs = e.toNat by omega, zpow_zero, mul_one]
      push_cast
      rfl
    have hlong : 2 ^ 52 ≤ n <<< Format.binary64.mantissaBits * 10 ^ e.toNat := by
      rw [Nat.shiftLeft_eq]
      calc 2 ^ 52 ≤ 1 * 2 ^ Format.binary64.mantissaBits * 1 := by decide
        _ ≤ n * 2 ^ Format.binary64.mantissaBits * 10 ^ e.toNat :=
          Nat.mul_le_mul (Nat.mul_le_mul_right _ (Nat.pos_of_ne_zero hn))
            (Nat.pow_pos (by norm_num))
    have := denotes_mul_finite .positive .positive
      (by simpa [Nat.pos_iff_ne_zero] using hn)
      (Nat.pow_pos (by norm_num)) hvalue (.inl hlong) hbound
    rwa [signOne_mul, signOne, one_mul, one_mul] at this
  · have hvalue : (n : ℚ) * 10 ^ e = (n * 2 ^ (0 : ℤ)) / ((10 ^ (-e).toNat : ℕ) * 2 ^ (0 : ℤ)) := by
      rw [ten_zpow_of_neg (by omega), show (-e).toNat = e.natAbs by omega, zpow_zero,
        mul_one, mul_one]
      push_cast
      ring
    have := denotes_div_finite .positive .positive
      (Nat.pos_of_ne_zero hn) (Nat.pow_pos (by norm_num)) hvalue hbound
    rwa [signOne_div, signOne, div_one, one_mul] at this

lemma abs_nearest_lt {q b : ℚ} (hq : 0 ≤ q) (h : nearest q < b) : |nearest q| < b := by
  rwa [abs_of_nonneg (nearest_nonneg hq)]

lemma hasValue_ofScientific (hn : n ≠ 0) (hlow : -(2048 + n.log2 : ℤ) ≤ e) (hhigh : e ≤ 2048)
    (hbound : nearest (n * 10 ^ e) < 2 ^ (1024 : ℤ)) :
    HasValue (Float.ofScientific n (e < 0) e.natAbs) (nearest (n * 10 ^ e)) := by
  have hnonneg : (0 : ℚ) ≤ n * 10 ^ e := mul_nonneg n.cast_nonneg (zpow_nonneg (by norm_num) e)
  have hbound' := abs_nearest_lt hnonneg hbound
  have hslow : HasValue (.ofModel (.ofScientific n e)) (nearest (n * 10 ^ e)) :=
    hasValue_pack (denotes_ofScientific hn hlow hhigh hbound)
  unfold Float.ofScientific
  split_ifs with hfast hsign hsign
  · -- A quotient of two numbers that are exact.
    rw [decide_eq_true_eq] at hsign
    have hvalue : (n : ℚ) * 10 ^ e = n / (10 ^ e.natAbs : ℕ) := by
      rw [ten_zpow_of_neg hsign]
      push_cast
      ring
    rw [hvalue] at hbound' ⊢
    exact (hasValue_toFloat hfast.1).div (hasValue_powerOfTen (by omega)) (by positivity) hbound'
  · rw [decide_eq_true_eq, not_lt] at hsign
    have hvalue : (n : ℚ) * 10 ^ e = n * (10 ^ e.natAbs : ℕ) := by
      rw [ten_zpow_of_nonneg hsign]
      push_cast
      rfl
    rw [hvalue] at hbound' ⊢
    exact (hasValue_toFloat hfast.1).mul (hasValue_powerOfTen (by omega)) hbound'
  · rw [decide_eq_true_eq] at hsign
    rwa [Int.negOfNat_eq, Int.ofNat_eq_natCast, show -(e.natAbs : ℤ) = e by omega]
  · rw [decide_eq_true_eq, not_lt] at hsign
    rwa [Int.ofNat_eq_natCast, show (e.natAbs : ℤ) = e by omega]

/-! Numbers that are far too large or too small. -/

lemma two_pow_le_ten_zpow (bits : ℕ) : (2 : ℚ) ^ (bits + 1) ≤ 10 ^ (28 * (bits / 93) + 28) := by
  have hpower : (2 : ℚ) ^ 93 ≤ 10 ^ 28 := by norm_num
  calc (2 : ℚ) ^ (bits + 1) ≤ 2 ^ (93 * (bits / 93 + 1)) :=
    pow_le_pow_right₀ (by norm_num) (by omega)
    _ = (2 ^ 93) ^ (bits / 93 + 1) := pow_mul _ _ _
    _ ≤ (10 ^ 28) ^ (bits / 93 + 1) := pow_le_pow_left₀ (by norm_num) hpower _
    _ = 10 ^ (28 * (bits / 93) + 28) := by rw [← pow_mul]; ring_nf

lemma ten_zpow_le_two_pow (bits : ℕ) : (10 : ℚ) ^ (3 * (bits / 10)) ≤ 2 ^ bits := by
  calc (10 : ℚ) ^ (3 * (bits / 10)) = (10 ^ 3) ^ (bits / 10) := pow_mul _ _ _
    _ ≤ (2 ^ 10) ^ (bits / 10) := pow_le_pow_left₀ (by norm_num) (by norm_num) _
    _ = 2 ^ (10 * (bits / 10)) := (pow_mul _ _ _).symm
    _ ≤ 2 ^ bits := pow_le_pow_right₀ (by norm_num) (by omega)

lemma nearest_eq_zero {q : ℚ} (hq : 0 ≤ q) (h : q < 2 ^ (-1075 : ℤ)) : nearest q = 0 := by
  have hunit : unitExponent q = -1074 := by
    refine unitExponent_eq le_rfl ?_ (.inr rfl)
    rw [abs_of_nonneg hq]
    exact h.trans_le (two_zpow_le (by norm_num))
  have hhalf : q / 2 ^ (-1074 : ℤ) < 1 / 2 := by
    rw [div_lt_iff₀ (two_zpow_pos _)]
    calc q < 2 ^ (-1075 : ℤ) := h
      _ = 1 / 2 * 2 ^ (-1074 : ℤ) := by
        rw [show (-1075 : ℤ) = -1 + -1074 by norm_num, two_zpow_add, zpow_neg_one, one_div]
  have hpos : 0 ≤ q / 2 ^ (-1074 : ℤ) := div_nonneg hq (two_zpow_pos _).le
  have hfloor : ⌊q / 2 ^ (-1074 : ℤ)⌋ = 0 := Int.floor_eq_zero_iff.2 ⟨hpos, by linarith⟩
  rw [nearest, hunit, nearestWhole_of_lt, hfloor, Int.cast_zero, zero_mul]
  rwa [Int.fract_eq_self.2 ⟨hpos, by linarith⟩]

lemma two_pow_le_ten_pow (k : ℕ) : (2 : ℚ) ^ (3 * k) ≤ 10 ^ k := by
  rw [pow_mul]
  exact pow_le_pow_left₀ (by norm_num) (by norm_num) k

lemma nearest_eq_zero_of_lt (h : 28 * (n.log2 / 93 : ℕ) + 28 + e < -400) :
    nearest (n * 10 ^ e) = 0 := by
  have hten : (0 : ℚ) < 10 ^ e := zpow_pos (by norm_num) e
  have hsize : (n : ℚ) < 10 ^ (28 * (n.log2 / 93) + 28) := by
    refine lt_of_lt_of_le ?_ (two_pow_le_ten_zpow n.log2)
    exact_mod_cast Nat.lt_log2_self
  refine nearest_eq_zero (mul_nonneg n.cast_nonneg hten.le) ?_
  calc (n : ℚ) * 10 ^ e < 10 ^ (28 * (n.log2 / 93) + 28) * 10 ^ e :=
    mul_lt_mul_of_pos_right hsize hten
    _ = 10 ^ (28 * (n.log2 / 93 : ℕ) + 28 + e : ℤ) := by
      rw [zpow_add₀ (by norm_num)]
      norm_cast
    _ ≤ 10 ^ (-(401 : ℕ) : ℤ) := zpow_le_zpow_right₀ (by norm_num) (by omega)
    _ ≤ 2 ^ (-(3 * 401 : ℕ) : ℤ) := by
      rw [zpow_neg, zpow_neg, zpow_natCast, zpow_natCast]
      exact inv_anti₀ (by positivity) (two_pow_le_ten_pow 401)
    _ ≤ 2 ^ (-1075 : ℤ) := two_zpow_le (by norm_num)

lemma le_nearest_of_lt (hn : n ≠ 0) (h : 400 < 3 * (n.log2 / 10 : ℕ) + e) :
    2 ^ (1024 : ℤ) ≤ nearest (n * 10 ^ e) := by
  have hten : (0 : ℚ) < 10 ^ e := zpow_pos (by norm_num) e
  have hsize : (10 : ℚ) ^ (3 * (n.log2 / 10)) ≤ n := by
    refine (ten_zpow_le_two_pow n.log2).trans ?_
    exact_mod_cast Nat.log2_self_le hn
  have hrepresentable : Representable (2 ^ (1024 : ℤ)) := 
    ⟨1, 1024, by norm_num, by norm_num, by rw [Int.cast_one, one_mul]⟩
  refine le_nearest hrepresentable ?_
  calc (2 : ℚ) ^ (1024 : ℤ) ≤ 2 ^ ((3 * 400 : ℕ) : ℤ) := two_zpow_le (by norm_num)
    _ ≤ 10 ^ ((400 : ℕ) : ℤ) := by
      rw [zpow_natCast, zpow_natCast]
      exact two_pow_le_ten_pow 400
    _ ≤ 10 ^ (3 * (n.log2 / 10 : ℕ) + e : ℤ) := zpow_le_zpow_right₀ (by norm_num) (by omega)
    _ = 10 ^ (3 * (n.log2 / 10)) * 10 ^ e := by
      rw [zpow_add₀ (by norm_num)]
      norm_cast
    _ ≤ n * 10 ^ e := mul_le_mul_of_nonneg_right hsize hten.le

lemma hasValue_zero : HasValue 0.0 0 := by
  have := hasValue_of_isNat (x := 0.0) (n := 0) (by decide +kernel)
  rwa [Nat.cast_zero] at this

/-- The nearest double to a decimal number, whatever its size. -/
theorem hasValue_scaledFloat (hbound : nearest (n * 10 ^ e) < 2 ^ (1024 : ℤ)) :
    HasValue (scaledFloat n e) (nearest (n * 10 ^ e)) := by
  unfold scaledFloat
  obtain rfl | hn := eq_or_ne n 0
  · rw [Nat.cast_zero, zero_mul, nearest_zero]
    exact hasValue_zero
  · dsimp only
    split_ifs with hsmall hlarge
    · rw [nearest_eq_zero_of_lt (by simpa [hn] using hsmall)]
      exact hasValue_zero
    · exact absurd (le_nearest_of_lt hn hlarge) (not_le.2 hbound)
    · have hsmall : ¬28 * ((n.log2 / 93 : ℕ) : ℤ) + 28 + e < -400 := by simpa [hn] using hsmall
      exact hasValue_ofScientific hn (by omega) (by omega) hbound

end Scientific
end SkyResolver.Number
