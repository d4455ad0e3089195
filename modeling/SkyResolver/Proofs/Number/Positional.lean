import SkyResolver.Number.Write
import SkyResolver.Proofs.Number.Shortest

/-! Positive doubles in positional notation. The text of a finite one is a decimal number that is
read as the same double. -/
namespace SkyResolver.Number
open Float.Model Float.Model.UnpackedFloat

/-! ### Doubles with one value -/

section Values
variable {x y : Float} {q : ℚ}

lemma eq_of_canonical {m₁ m₂ : ℕ} {e₁ e₂ : ℤ} (h₁ : Canonical m₁ e₁) (h₂ : Canonical m₂ e₂)
    (h : (m₁ : ℚ) * 2 ^ e₁ = m₂ * 2 ^ e₂) : m₁ = m₂ ∧ e₁ = e₂ := by
  have hcompare := compare_canonical h₁ h₂
  rw [compare_eq_iff_eq.2 h, Ordering.then_eq_eq, compare_eq_iff_eq, compare_eq_iff_eq] at hcompare
  exact ⟨hcompare.2, hcompare.1⟩

/-- Only the two zeros have the same value. -/
lemma HasValue.eq_of_hasMinusSign (hx : HasValue x q) (hy : HasValue y q)
    (hsign : hasMinusSign x = hasMinusSign y) : x = y := by
  obtain ⟨b, hb, rfl⟩ := hasValue_iff.1 hx
  obtain ⟨b', hb', hvalue⟩ := hasValue_iff.1 hy
  have hnegative : b'.negative = b.negative := by
    rw [← hasMinusSign_of_ofFloat? hb, ← hasMinusSign_of_ofFloat? hb', hsign]
  have hmagnitude : (b'.mantissa : ℚ) * 2 ^ b'.exponent = b.mantissa * 2 ^ b.exponent := by
    rw [Binary.value, Binary.value, hnegative] at hvalue
    exact mul_left_cancel₀ (by split <;> norm_num) hvalue
  obtain ⟨hmantissa, hexponent⟩ :=
    eq_of_canonical (canonical_ofFloat? hb') (canonical_ofFloat? hb) hmagnitude
  obtain ⟨negative, mantissa, exponent⟩ := b
  obtain ⟨negative', mantissa', exponent'⟩ := b'
  obtain ⟨rfl, rfl, rfl⟩ : negative' = negative ∧ mantissa' = mantissa ∧ exponent' = exponent :=
    ⟨hnegative, hmantissa, hexponent⟩
  exact eq_of_ofFloat? hb hb'

lemma toNat_bitsOf_of_infinity (h : x.toModel.unpack = .infinity .positive) :
    (bitsOf x).toNat = 2047 * 2 ^ 52 := by
  have hunpack : UnpackedFloat.unpack Format.binary64 (bitsOf x) = .infinity .positive := h
  unfold UnpackedFloat.unpack at hunpack
  simp only [exponent_eq_neg_one_iff, exponent_eq_zero_iff] at hunpack
  split_ifs at hunpack with hexponent hmantissa
  have hsign : (unpackSign (bitsOf x)).toNat = 0 := by
    have hminus : isMinus (.ofBitVec (unpackSign (bitsOf x))) = false := by
      rw [UnpackedFloat.infinity.inj hunpack]
      rfl
    rw [isMinus_ofBitVec, beq_eq_false_iff_ne] at hminus
    have := (unpackSign (bitsOf x)).isLt
    omega
  have hmantissa : (unpackMantissa (bitsOf x)).toNat = 0 := by rw [hmantissa]; rfl
  rw [toNat_unpackExponent, show twoTo 52 = 2 ^ 52 from rfl, show twoTo 11 = 2 ^ 11 from
    rfl] at hexponent
  rw [toNat_unpackSign, show twoTo 63 = 2 ^ 63 from rfl] at hsign
  rw [toNat_unpackMantissa, show twoTo 52 = 2 ^ 52 from rfl] at hmantissa
  omega

lemma eq_infinity (h : x.toModel.unpack = .infinity .positive) : x = 1.0 / 0.0 := by
  have hbits : x.toBits = (1.0 / 0.0 : Float).toBits := by
    refine UInt64.toNat_inj.1 ((toNat_bitsOf_of_infinity h).trans ?_)
    decide +kernel
  exact eq_of_toBits hbits

/-- A positive double is infinite, or it has no sign and a mantissa other than zero. -/
lemma positive_cases (h : 0.0 < x) :
    x = 1.0 / 0.0 ∨ ∃ b, Binary.ofFloat? x = some b ∧ b.negative = false ∧ 0 < b.mantissa := by
  by_cases hfinite : x.isFinite = true
  · obtain ⟨q, hq⟩ := isFinite_iff.1 hfinite
    obtain ⟨b, hb, rfl⟩ := hasValue_iff.1 hq
    have hpos : 0 < b.value := (hasValue_zero.lt_iff hq).1 h
    refine .inr ⟨b, hb, ?_, Nat.pos_of_ne_zero ?_⟩
    · by_contra hnegative
      rw [Binary.value, if_pos (by simpa using hnegative)] at hpos
      have : (0 : ℚ) ≤ b.mantissa * 2 ^ b.exponent := by positivity
      linarith
    · intro hzero
      rw [Binary.value, hzero, Nat.cast_zero, zero_mul, mul_zero] at hpos
      exact hpos.false
  · have hnumber : x.toModel.unpack.isNaN = false := isNaN_of_lt h
    refine .inl (eq_infinity ?_)
    rw [lt_def] at h
    change ¬x.toModel.unpack.isFinite = true at hfinite
    cases hx : x.toModel.unpack with
    | zero s => rw [hx] at hfinite; exact absurd rfl hfinite
    | finite s m e hm => rw [hx] at hfinite; exact absurd rfl hfinite
    | notANumber => rw [hx] at hnumber; cases hnumber
    | infinity s =>
      cases s with
      | positive => rfl
      | negative =>
        have := Denotes.not_le_negative hasValue_zero
        rw [← hx, h] at this
        cases this

end Values

/-! ### Positional notation -/

section Positional
variable {n : ℕ} {d : Decimal}

lemma digitChars_ne_nil (n : ℕ) : digitChars n ≠ [] := Nat.toDigits_ne_nil

lemma head?_digitChars_ne (h : n ≠ 0) : (digitChars n).head? ≠ some '0' := by
  induction n using Nat.strongRecOn with
  | ind n ih =>
    obtain hlt | hge := lt_or_ge n 10
    · rw [digitChars, Nat.toDigits_of_lt_base hlt]
      interval_cases n <;> simp_all
    · rw [digitChars, Nat.toDigits_of_base_le (by norm_num) hge,
        List.head?_append_of_ne_nil _ Nat.toDigits_ne_nil]
      exact ih (n / 10) (by omega) (by omega)

lemma isDigit_of_mem_digitChars {c : Char} (h : c ∈ digitChars n) : c.isDigit = true :=
  Nat.isDigit_of_mem_toDigits (by norm_num) (by norm_num) h

lemma natOfDigits_digitChars (n : ℕ) : natOfDigits (digitChars n) = n :=
  Nat.ofDigitChars_ten_toDigits

lemma natOfDigits_replicate_zero (k : ℕ) : natOfDigits (List.replicate k '0') = 0 := by
  rw [natOfDigits_eq, Nat.ofDigitChars_replicate_zero, Nat.mul_zero]

/-- A decimal number with a point, and a digit at least on either side of it. -/
def Decimal.pointed (d : Decimal) : DecimalText :=
  if 0 ≤ d.exponent then ⟨digitChars d.digits ++ List.replicate d.exponent.natAbs '0', ['0']⟩
  else
    let places := d.exponent.natAbs
    let padded := padZeros (places + 1) (digitChars d.digits)
    ⟨padded.take (padded.length - places), padded.drop (padded.length - places)⟩

lemma length_padZeros_eq (width : ℕ) (s : List Char) :
    (padZeros width s).length = max width s.length := by
  rw [padZeros, List.length_append, List.length_replicate]
  omega

lemma Decimal.fraction_pointed_ne_nil (d : Decimal) : d.pointed.fraction ≠ [] := by
  unfold Decimal.pointed
  split
  · exact List.cons_ne_nil _ _
  · rw [← List.length_pos_iff_ne_nil]
    dsimp only
    rw [List.length_drop, length_padZeros_eq]
    omega

lemma Decimal.valid_pointed (d : Decimal) : d.pointed.Valid := by
  unfold Decimal.pointed
  split
  · refine ⟨fun hnil => digitChars_ne_nil _ (List.append_eq_nil_iff.1 hnil).1,
      fun c hc => ?_, by simp⟩
    obtain hc | hc := List.mem_append.1 hc
    · exact isDigit_of_mem_digitChars hc
    · rw [(List.mem_replicate.1 hc).2]
      rfl
  · refine ⟨?_, fun c hc => isDigit_of_mem_padZeros (List.mem_of_mem_take hc),
      fun c hc => isDigit_of_mem_padZeros (List.mem_of_mem_drop hc)⟩
    rw [← List.length_pos_iff_ne_nil]
    dsimp only
    rw [List.length_take, length_padZeros_eq]
    omega

lemma Decimal.value_pointed (d : Decimal) : d.pointed.value = d.digits * 10 ^ d.exponent := by
  unfold Decimal.pointed
  split
  · rename_i hexponent
    have hdigits :
        natOfDigits (digitChars d.digits ++ List.replicate d.exponent.natAbs '0' ++ ['0']) =
        d.digits * 10 ^ d.exponent.natAbs * 10 := by
      rw [natOfDigits_append, natOfDigits_append, natOfDigits_digitChars,
        natOfDigits_replicate_zero, List.length_replicate]
      rfl
    rw [DecimalText.value_of_eq (k := 1) hdigits rfl, ten_zpow_of_nonneg hexponent]
    push_cast
    ring
  · rename_i hexponent
    have hlength : ((padZeros (d.exponent.natAbs + 1) (digitChars d.digits)).drop
        ((padZeros (d.exponent.natAbs + 1) (digitChars d.digits)).length -
          d.exponent.natAbs)).length =
          d.exponent.natAbs := by
      rw [List.length_drop, length_padZeros_eq]
      omega
    rw [DecimalText.value_of_eq (n := d.digits) _ hlength, ten_zpow_of_neg (by omega)]
    · ring
    · dsimp only
      rw [List.take_append_drop, natOfDigits_padZeros_digitChars]

/-- A zero leads only where nothing else stands in front of the point. -/
lemma Decimal.length_whole_pointed (hd : d.digits ≠ 0) (h : d.pointed.whole.head? = some '0') :
    d.pointed.whole.length = 1 := by
  unfold Decimal.pointed at h ⊢
  split at h
  · dsimp only at h
    rw [List.head?_append_of_ne_nil _ (digitChars_ne_nil _)] at h
    exact absurd h (head?_digitChars_ne hd)
  · rename_i hexponent
    rw [if_neg hexponent]
    dsimp only at h ⊢
    rw [List.length_take, length_padZeros_eq]
    obtain hshort | hlong := le_or_gt (digitChars d.digits).length (d.exponent.natAbs + 1)
    · omega
    · rw [padZeros, Nat.sub_eq_zero_of_le hlong.le, List.replicate_zero, List.nil_append,
        List.head?_take, if_neg (by omega)] at h
      exact absurd h (head?_digitChars_ne hd)

/-- Positional notation, with a zero behind the point of a whole number. -/
lemma Decimal.chars_pointed (d : Decimal) :
    d.pointed.chars = if (positional [] d).contains '.' then positional [] d else
    positional [] d ++ ['.', '0'] := by
  have hvalid := d.valid_pointed
  rw [DecimalText.chars, if_neg d.fraction_pointed_ne_nil]
  unfold positional
  unfold Decimal.pointed at hvalid ⊢
  split
  · rename_i hexponent
    rw [if_pos hexponent] at hvalid
    have hpoint : (digitChars d.digits ++ List.replicate d.exponent.natAbs '0').contains '.' =
        false := by
      rw [List.contains_eq_any_beq, List.any_eq_false]
      intro c hc hpoint
      have := hvalid.whole c hc
      rw [← beq_iff_eq.1 hpoint] at this
      cases this
    rw [List.append_nil, hpoint, if_neg Bool.false_ne_true]
  · rw [if_pos (by simp)]

end Positional

section Plain
variable {x : Float} {b : Binary}

lemma plain_of_positive (hb : Binary.ofFloat? x = some b) (hsign : b.negative = false)
    (hm : 0 < b.mantissa) :
    plain x = positional [] (shortest .up b) := by
  have hvalue := hasValue_value hb
  have hinf : x.isInf = false := by
    change x.toModel.unpack.isInf = false
    unfold HasValue at hvalue
    cases hx : x.toModel.unpack with
    | infinity s => rw [hx] at hvalue; exact hvalue.elim
    | _ => rfl
  rw [plain, FloatFormat.write, hvalue.isNaN_eq, hinf, signChars, hasMinusSign_of_ofFloat? hb,
    hsign, shortest?, hb]
  simp [hm.ne']

/-- A positive double is the one that its shortest digits are read as. -/
theorem float_pointed_shortest (tie : Tie) (hb : Binary.ofFloat? x = some b)
    (hsign : b.negative = false) (hm : 0 < b.mantissa) :
    nearest (shortest tie b).pointed.value < 2 ^ (1024 : ℤ) ∧
    (shortest tie b).pointed.float = x := by
  have hvalue := hasValue_value hb
  have hnearest : nearest (shortest tie b).pointed.value = b.value := by
    rw [Decimal.value_pointed, (nearest_shortest tie (canonical_ofFloat? hb) hm).2,
      Binary.value, hsign]
    simp
  have hbound : nearest (shortest tie b).pointed.value < 2 ^ (1024 : ℤ) := by
    rw [hnearest]
    exact (le_abs_self _).trans_lt (Denotes.abs_lt hvalue)
  refine ⟨hbound, HasValue.eq_of_hasMinusSign
    (hnearest ▸ DecimalText.hasValue_float hbound) hvalue ?_⟩
  rw [DecimalText.hasMinusSign_float, hasMinusSign_of_ofFloat? hb, hsign]

end Plain
end SkyResolver.Number
