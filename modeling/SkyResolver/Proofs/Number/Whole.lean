import SkyResolver.Number.Write
import SkyResolver.Proofs.Number.Decimals

/-! Whole numbers among the doubles: rounding to them, remainders, and their digits. -/
namespace SkyResolver.Number
open Float.Model Float.Model.UnpackedFloat

section Whole
variable {x : Float} {q : ℚ} {n : ℕ}

lemma hasValue_ofNat (h : n < 2 ^ 53) : HasValue (Float.ofNat n) n := by
  obtain rfl | hn := eq_or_ne n 0
  · exact hasValue_of_isNat (by decide +kernel)
  · have hrepresentable := representable_natCast h.le
    have hvalue : nearest ((n : ℚ) * 10 ^ (0 : ℤ)) = n := by
      rw [zpow_zero, mul_one, hrepresentable.nearest_eq]
    have hbound : (n : ℚ) < 2 ^ (1024 : ℤ) := 
      calc (n : ℚ) < 2 ^ 53 := by exact_mod_cast h
        _ ≤ 2 ^ (1024 : ℤ) := two_zpow_le (e := 53) (by norm_num)
    have := hasValue_ofScientific (e := 0) hn (by omega) (by norm_num) (by rwa [hvalue])
    rwa [hvalue] at this

lemma hasValue_signed (negative : Bool) (h : n < 2 ^ 53) :
    HasValue (signed negative n) ((if negative then -1 else 1) * n) := by
  cases negative with
  | false => simpa [signed] using hasValue_ofNat h
  | true => simpa [signed] using (hasValue_ofNat h).neg

/-! ### Rounding to whole numbers -/

lemma Binary.value_of_nonneg {b : Binary} (he : 0 ≤ b.exponent) :
    b.value = ((if b.negative then -1 else 1) * (b.mantissa * 2 ^ b.exponent.natAbs) : ℤ) := by
  have hpower : (2 : ℚ) ^ b.exponent = 2 ^ b.exponent.natAbs := by
    rw [← zpow_natCast]
    congr 1
    omega
  rw [Binary.value, hpower]
  split <;> push_cast <;> rfl

lemma cast_twoTo (k : ℕ) : ((twoTo k : ℕ) : ℚ) = 2 ^ k := by
  rw [show twoTo k = 2 ^ k from rfl, Nat.cast_pow, Nat.cast_ofNat]

lemma Binary.magnitude_of_neg {b : Binary} (he : b.exponent < 0) :
    (b.mantissa : ℚ) * 2 ^ b.exponent = b.mantissa / twoTo b.exponent.natAbs := by
  have hpower : (2 : ℚ) ^ b.exponent = 1 / (twoTo b.exponent.natAbs : ℕ) := by
    rw [show b.exponent = -(b.exponent.natAbs : ℤ) by omega, zpow_neg, zpow_natCast, Int.natAbs_neg,
      Int.natAbs_natCast, one_div, cast_twoTo]
  rw [hpower, mul_one_div]

lemma Binary.value_of_neg {b : Binary} (he : b.exponent < 0) :
    b.value = (if b.negative then -1 else 1) * (b.mantissa / twoTo b.exponent.natAbs) := by
  rw [Binary.value, Binary.magnitude_of_neg he]

/-- Only zero can have a minus and a value that is not negative. -/
lemma Binary.mantissa_eq_zero {b : Binary} (h : 0 ≤ b.value) (hsign : b.negative = true) :
    b.mantissa = 0 := by
  by_contra hne
  have hpos : (0 : ℚ) < b.mantissa * 2 ^ b.exponent :=
    mul_pos (by exact_mod_cast Nat.pos_of_ne_zero hne) (two_zpow_pos _)
  rw [Binary.value, hsign, if_pos rfl] at h
  linarith

lemma Binary.value_of_nonneg_value {b : Binary} (h : 0 ≤ b.value) :
    b.value = b.mantissa * 2 ^ b.exponent := by
  cases hsign : b.negative with
  | false => rw [Binary.value, hsign, if_neg Bool.false_ne_true, one_mul]
  | true => rw [Binary.value, Binary.mantissa_eq_zero h hsign, Nat.cast_zero, zero_mul, mul_zero]

lemma hasValue_signed_of_nonneg {b : Binary} (h : 0 ≤ b.value) (hn : n < 2 ^ 53)
    (hzero : b.mantissa = 0 → n = 0) :
    HasValue (signed b.negative n) n := by
  have hsigned := hasValue_signed b.negative hn
  cases hsign : b.negative with
  | false => rwa [hsign, if_neg Bool.false_ne_true, one_mul] at hsigned
  | true =>
    obtain rfl := hzero (Binary.mantissa_eq_zero h hsign)
    rwa [hsign, Nat.cast_zero, mul_zero] at hsigned

lemma cast_eq_div_add_mod (m : ℕ) {unit : ℕ} (hunit : 0 < unit) :
    (m : ℚ) / unit = (m / unit : ℕ) + (m % unit : ℕ) / (unit : ℚ) := by
  have hpos : (0 : ℚ) < unit := by exact_mod_cast hunit
  rw [div_eq_iff hpos.ne', add_mul, div_mul_cancel₀ _ hpos.ne']
  exact_mod_cast (Nat.div_add_mod' m unit).symm

lemma mod_div_lt_one (m : ℕ) {unit : ℕ} (hunit : 0 < unit) : ((m % unit : ℕ) : ℚ) / unit < 1 := by
  rw [div_lt_one (by exact_mod_cast hunit)]
  exact_mod_cast Nat.mod_lt m hunit

lemma div_twoTo_lt {m k : ℕ} (hm : m < 2 ^ 53) (hk : 0 < k) : m / twoTo k < 2 ^ 52 := by
  have htwo : 2 ≤ twoTo k := by
    have : 2 ^ 1 ≤ 2 ^ k := Nat.pow_le_pow_right (by norm_num) hk
    exact this
  calc m / twoTo k ≤ m / 2 := Nat.div_le_div_left htwo (by norm_num)
    _ < 2 ^ 52 := by omega

theorem hasValue_floor (h : HasValue x q) : HasValue (floor x) ⌊q⌋ := by
  obtain ⟨b, hb, rfl⟩ := hasValue_iff.1 h
  have hcanonical := canonical_ofFloat? hb
  simp only [floor, hb]
  split
  · rename_i he
    rwa [Binary.value_of_nonneg he, Int.floor_intCast, ← Binary.value_of_nonneg he]
  · rename_i he
    rw [not_le] at he
    have hunit := twoTo_pos b.exponent.natAbs
    have hlow : (0 : ℚ) ≤ (b.mantissa % twoTo b.exponent.natAbs : ℕ) /
        (twoTo b.exponent.natAbs : ℚ) := by positivity
    have hhigh := mod_div_lt_one b.mantissa hunit
    have hwhole := div_twoTo_lt hcanonical.small (show 0 < b.exponent.natAbs by omega)
    rw [Binary.value_of_neg he, cast_eq_div_add_mod _ hunit]
    generalize b.mantissa / twoTo b.exponent.natAbs = whole at *
    cases hsign : b.negative with
    | false =>
      have hfloor :
          ⌊(whole : ℚ) + (b.mantissa % twoTo b.exponent.natAbs : ℕ) /
            (twoTo b.exponent.natAbs : ℚ)⌋ = whole := by
        rw [Int.floor_natCast_add, Int.floor_eq_zero_iff.2 ⟨hlow, hhigh⟩, add_zero]
      simpa [hfloor] using hasValue_signed false (show whole < 2 ^ 53 by omega)
    | true =>
      by_cases hrest : b.mantissa % twoTo b.exponent.natAbs = 0
      · have := hasValue_signed true (show whole < 2 ^ 53 by omega)
        simpa [hrest, Int.floor_neg] using this
      · have hpos :
            (0 : ℚ) < (b.mantissa % twoTo b.exponent.natAbs : ℕ) / (twoTo b.exponent.natAbs : ℚ) :=
          div_pos (by exact_mod_cast Nat.pos_of_ne_zero hrest) (by exact_mod_cast hunit)
        have hfloor : ⌊-1 * ((whole : ℚ) +
            (b.mantissa % twoTo b.exponent.natAbs : ℕ) / (twoTo b.exponent.natAbs : ℚ))⌋ =
            -(whole + 1 : ℤ) := by
          rw [Int.floor_eq_iff]
          push_cast
          constructor <;> linarith
        have := hasValue_signed true (show whole + 1 < 2 ^ 53 by omega)
        simp only [hrest, Bool.true_and, bne_iff_ne, ne_eq, not_false_eq_true, if_true, hfloor]
        push_cast at this ⊢
        simpa using this

theorem hasValue_round (h : HasValue x q) (hq : 0 ≤ q) : HasValue (round x) ⌊q + 1 / 2⌋ := by
  obtain ⟨b, hb, rfl⟩ := hasValue_iff.1 h
  have hcanonical := canonical_ofFloat? hb
  simp only [round, hb]
  split
  · rename_i he
    rw [Binary.value_of_nonneg he] at h ⊢
    rwa [Int.floor_intCast_add, show ⌊(1 / 2 : ℚ)⌋ = 0 by norm_num, add_zero]
  · rename_i he
    rw [not_le] at he
    have hunit := twoTo_pos b.exponent.natAbs
    have hunit' : (0 : ℚ) < twoTo b.exponent.natAbs := by exact_mod_cast hunit
    have hsmall : (2 * b.mantissa + twoTo b.exponent.natAbs) / (2 * twoTo b.exponent.natAbs) <
        2 ^ 53 := by
      have hwhole := div_twoTo_lt hcanonical.small (show 0 < b.exponent.natAbs by omega)
      calc (2 * b.mantissa + twoTo b.exponent.natAbs) / (2 * twoTo b.exponent.natAbs) ≤
            2 * (b.mantissa + twoTo b.exponent.natAbs) / (2 * twoTo b.exponent.natAbs) :=
          Nat.div_le_div_right (by omega)
        _ = b.mantissa / twoTo b.exponent.natAbs + 1 := by
          rw [Nat.mul_div_mul_left _ _ (by norm_num), Nat.add_div_right _ hunit]
        _ < 2 ^ 53 := by omega
    have hfloor : ⌊(b.mantissa : ℚ) / twoTo b.exponent.natAbs + 1 / 2⌋ =
        ((2 * b.mantissa + twoTo b.exponent.natAbs) / (2 * twoTo b.exponent.natAbs) : ℕ) := by
      have hquotient : (b.mantissa : ℚ) / twoTo b.exponent.natAbs + 1 / 2 =
          ((2 * b.mantissa + twoTo b.exponent.natAbs : ℕ) : ℚ) /
          ((2 * twoTo b.exponent.natAbs : ℕ) : ℚ) := by
        push_cast
        field_simp
      rw [hquotient]
      exact Rat.floor_natCast_div_natCast _ _
    have hsigned := hasValue_signed_of_nonneg hq hsmall fun hzero => ?_
    · rwa [Binary.value_of_nonneg_value hq, Binary.magnitude_of_neg he, hfloor, Int.cast_natCast]
    · rw [hzero, Nat.mul_zero, Nat.zero_add]
      exact Nat.div_eq_of_lt (by omega)

/-! ### Remainders -/

lemma hasValue_remainder (h : HasValue x q) (hq : 0 ≤ q) (hn : q < n) (hsmall : n < 2 ^ 53) :
    HasValue (remainder x n) q := by
  obtain ⟨b, hb, rfl⟩ := hasValue_iff.1 h
  simp only [remainder, hb]
  rw [Binary.value_of_nonneg_value hq] at hn
  split
  · rename_i he
    have hmagnitude :
        (b.mantissa : ℚ) * 2 ^ b.exponent = (b.mantissa * twoTo b.exponent.natAbs : ℕ) := by
      rw [Nat.cast_mul, cast_twoTo, ← zpow_natCast, Int.natAbs_of_nonneg he]
    rw [Binary.value_of_nonneg_value hq, hmagnitude]
    rw [hmagnitude] at hn
    have hn : b.mantissa * twoTo b.exponent.natAbs < n := by exact_mod_cast hn
    rw [Nat.mod_eq_of_lt hn]
    exact hasValue_signed_of_nonneg hq (hn.trans hsmall) fun hzero => by rw [hzero, Nat.zero_mul]
  · rename_i he
    rw [not_le] at he
    have hunit : (0 : ℚ) < twoTo b.exponent.natAbs := by exact_mod_cast twoTo_pos _
    rw [Binary.magnitude_of_neg he, div_lt_iff₀ hunit] at hn
    rwa [if_pos (by exact_mod_cast hn)]

lemma hasValue_positiveRemainder (h : HasValue x q) (hq : 0 ≤ q) (hn : q < n)
    (hsmall : n < 2 ^ 53) :
    HasValue (positiveRemainder x n) q := by
  have hremainder := hasValue_remainder h hq hn hsmall
  rw [positiveRemainder, if_neg]
  · exact hremainder
  · rw [hremainder.lt_iff hasValue_zero]
    exact not_lt.2 hq

lemma HasValue.isNaN_eq (h : HasValue x q) : x.isNaN = false := by
  change x.toModel.unpack.isNaN = false
  unfold HasValue at h
  cases hu : x.toModel.unpack with
  | notANumber => rw [hu] at h; exact h.elim
  | _ => rfl

/-- What is above something is a number. -/
lemma isNaN_of_lt {y : Float} (h : x < y) : y.isNaN = false := by
  rw [lt_def] at h
  change y.toModel.unpack.isNaN = false
  cases hy : y.toModel.unpack with
  | notANumber =>
    rw [hy] at h
    cases hx : x.toModel.unpack <;> rw [hx] at h <;> cases h
  | _ => rfl

lemma nonNegative_eq (h : HasValue x q) (hq : 0 ≤ q) : nonNegative x = x := by
  have hlt : ¬x < 0.0 := by rwa [h.lt_iff hasValue_zero, not_lt]
  rw [nonNegative, h.isNaN_eq, decide_eq_false hlt]
  rfl

lemma Represents.mantissa_eq {em : ExtendedMantissa} (h : Represents em n) : em.mantissa = n := by
  obtain ⟨f, hf, heq⟩ := h
  have hlow := hf.nonneg
  have hhigh := hf.lt_one
  have h₁ : (em.mantissa : ℚ) < (n + 1 : ℕ) := by push_cast; linarith
  have h₂ : (n : ℚ) < (em.mantissa + 1 : ℕ) := by push_cast; linarith
  have h₁ : em.mantissa < n + 1 := by exact_mod_cast h₁
  have h₂ : n < em.mantissa + 1 := by exact_mod_cast h₂
  omega

lemma roundToInt_eq {m : ℕ} {e : ℤ} (h : (m : ℚ) * 2 ^ e = n) : roundToInt .positive m e = n := by
  have hrepresents := (represents_ofMantissaAndAccuracy (m <<< (e - 0).toNat) (f := 0)
    (show Describes .exact 0 from rfl)).shiftRight (0 - (e - (e - 0).toNat)).toNat
  have hvalue : (((m <<< (e - 0).toNat : ℕ) : ℚ) + 0) / 2 ^ (0 - (e - (e - 0).toNat)).toNat =
      n := by
    rw [add_zero, div_eq_iff (by positivity), ← h, ← cast_shiftLeft_mul m (e - 0).toNat e,
      mul_assoc, ← zpow_natCast, ← two_zpow_add,
      show e - ((e - 0).toNat : ℤ) + ((0 - (e - ((e - 0).toNat : ℤ))).toNat : ℤ) = 0 by
        omega, zpow_zero, mul_one]
  rw [hvalue] at hrepresents
  exact congrArg Nat.cast hrepresents.mantissa_eq

lemma toNat_toUInt64 (h : HasValue x n) (hn : n < 2 ^ 64) : x.toUInt64.toNat = n := by
  have hint : x.toModel.unpack.toInt 0 (UInt64.size - 1) = n := by
    unfold HasValue at h
    cases hu : x.toModel.unpack with
    | zero s =>
      rw [hu] at h
      have hzero : (n : ℚ) = 0 := h
      rw [UnpackedFloat.toInt, Nat.cast_eq_zero.1 hzero]
      rfl
    | finite s m e hm =>
      rw [hu] at h
      have hpos : (0 : ℚ) < m * 2 ^ e := mul_pos (by exact_mod_cast hm) (two_zpow_pos e)
      cases s with
      | negative =>
        have := h.2
        rw [signOne] at this
        linarith [n.cast_nonneg (α := ℚ)]
      | positive => exact roundToInt_eq (by rw [h.2, signOne, one_mul])
    | infinity s => rw [hu] at h; exact h.elim
    | notANumber => rw [hu] at h; exact h.elim
  change (UInt64.ofNatClamp (x.toModel.unpack.toInt 0 (UInt64.size - 1)).toNat).toNat = n
  rw [hint, Int.toNat_natCast, UInt64.ofNatClamp_eq_ofNat n hn]
  exact Nat.mod_eq_of_lt hn

/-! ### Digits -/

/-- Rounding a quotient up or down by its rest gives the whole number that is nearer than a half. -/
lemma roundedQuotient_eq {m unit : ℕ} (hunit : 0 < unit) (hn : |(m : ℚ) / unit - n| < 1 / 2) :
    (if (unit < 2 * (m % unit) || (2 * (m % unit) == unit && m / unit % 2 == 1)) = true then
      m / unit + 1
      else m / unit) = n := by
  have hunit' : (0 : ℚ) < unit := by exact_mod_cast hunit
  rw [cast_eq_div_add_mod _ hunit] at hn
  have hlow : (0 : ℚ) ≤ (m % unit : ℕ) / (unit : ℚ) := by positivity
  have hhigh := mod_div_lt_one m hunit
  obtain ⟨hn₁, hn₂⟩ := abs_lt.1 hn
  have hcases : n = m / unit ∨ n = m / unit + 1 := by
    have h₁ : (n : ℚ) < ((m / unit + 2 : ℕ) : ℚ) := by push_cast at *; linarith
    have h₂ : ((m / unit : ℕ) : ℚ) < ((n + 1 : ℕ) : ℚ) := by push_cast at *; linarith
    have h₁ : n < m / unit + 2 := by exact_mod_cast h₁
    have h₂ : m / unit < n + 1 := by exact_mod_cast h₂
    omega
  obtain rfl | rfl := hcases
  · have hless : ((m % unit : ℕ) : ℚ) / unit < 1 / 2 := by linarith
    rw [div_lt_div_iff₀ hunit' (by norm_num)] at hless
    have hless : m % unit * 2 < 1 * unit := by exact_mod_cast hless
    rw [if_neg]
    simp only [Bool.or_eq_true, decide_eq_true_eq, Bool.and_eq_true, beq_iff_eq]
    omega
  · have hmore : (1 : ℚ) / 2 < (m % unit : ℕ) / (unit : ℚ) := by
      push_cast at hn₁
      linarith
    rw [div_lt_div_iff₀ (by norm_num) hunit'] at hmore
    have hmore : 1 * unit < m % unit * 2 := by exact_mod_cast hmore
    rw [if_pos]
    simp only [Bool.or_eq_true, decide_eq_true_eq]
    omega

lemma fixed_eq {width places : ℕ} (h : HasValue x q) (hq : 0 ≤ q)
    (hn : |q * 10 ^ places - n| < 1 / 2) :
    fixed width places x =
      padZeros width (digitChars (n / tenTo places) ++ '.' :: padZeros places
        (digitChars (n % tenTo places))) := by
  obtain ⟨b, hb, rfl⟩ := hasValue_iff.1 h
  have hunit := twoTo_pos (-b.exponent).toNat
  have hscaled : b.value * 10 ^ places =
      (b.mantissa * twoTo b.exponent.toNat * tenTo places : ℕ) /
      (twoTo (-b.exponent).toNat : ℚ) := by
    rw [eq_div_iff (by exact_mod_cast hunit.ne'), Binary.value_of_nonneg_value hq,
      Nat.cast_mul, Nat.cast_mul, cast_twoTo, cast_twoTo, ← two_zpow_mul_toNat b.exponent,
      show tenTo places = 10 ^ places from rfl, Nat.cast_pow, Nat.cast_ofNat]
    ring
  rw [hscaled] at hn
  simp only [fixed, hb]
  rw [roundedQuotient_eq hunit hn]

end Whole
end SkyResolver.Number
