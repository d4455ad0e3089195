import SkyResolver.Proofs.Number.Digits

/-! The sign bits of doubles. A zero has one as well, and a sum, a product or a quotient without a
minus sign in its parts has none, also where it is rounded to zero. -/
namespace SkyResolver.Number
open Float.Model Float.Model.UnpackedFloat

variable {x y : Float} {b : Binary} {u v : UnpackedFloat}

/-! ### Numbers and their bits -/

lemma hasMinusSign_of_ofFloat? (h : Binary.ofFloat? x = some b) : hasMinusSign x = b.negative := by
  unfold Binary.ofFloat? at h
  dsimp only at h
  split_ifs at h <;> cases h <;> rfl

/-- The bits of a finite double: the sign in front, and below it the exponent and the mantissa,
where the leading one of the mantissa counts one more exponent. -/
lemma toNat_toBits (h : Binary.ofFloat? x = some b) :
    x.toBits.toNat = b.negative.toNat * 2 ^ 63 +
      ((b.exponent + 1074).toNat * 2 ^ 52 + b.mantissa) := by
  have hlt := x.toBits.toNat_lt
  have hnegative : b.negative.toNat = x.toBits.toNat / 2 ^ 63 := by
    rw [← hasMinusSign_of_ofFloat? h, hasMinusSign, show twoTo 63 = 2 ^ 63 from rfl]
    obtain hzero | hone : x.toBits.toNat / 2 ^ 63 = 0 ∨ x.toBits.toNat / 2 ^ 63 = 1 := by omega
    · rw [hzero]
      rfl
    · rw [hone]
      rfl
  unfold Binary.ofFloat? at h
  simp only [show twoTo 52 = 2 ^ 52 from rfl, show twoTo 11 = 2 ^ 11 from rfl] at h
  split_ifs at h with hspecial hsubnormal
  · cases h
    dsimp only at *
    omega
  · cases h
    dsimp only at *
    omega

lemma eq_of_toBits (h : x.toBits = y.toBits) : x = y := by
  obtain ⟨⟨bits, hvalid⟩⟩ := x
  obtain ⟨⟨bits', hvalid'⟩⟩ := y
  obtain rfl : bits = bits' := h
  rfl

/-- A finite double has no two forms. -/
lemma eq_of_ofFloat? (hx : Binary.ofFloat? x = some b) (hy : Binary.ofFloat? y = some b) : x = y :=
  eq_of_toBits (UInt64.toNat_inj.1 ((toNat_toBits hx).trans (toNat_toBits hy).symm))

/-! ### Negation -/

lemma isMinus_neg (s : Sign) : isMinus (-s) = !isMinus s := by cases s <;> rfl

lemma ofFloat?_neg (h : Binary.ofFloat? x = some b) :
    Binary.ofFloat? (-x) = some { b with negative := !b.negative } := by
  have hcanonical := canonical_ofFloat? h
  rw [Binary.ofFloat?_eq] at h
  change Binary.ofFloat? (.ofModel (.pack x.toModel.unpack.neg)) = _
  cases hu : x.toModel.unpack with
  | zero s =>
    rw [hu] at h
    cases h
    rw [UnpackedFloat.neg, ofFloat?_pack_zero, isMinus_neg]
  | finite s m e hm =>
    rw [hu] at h
    cases h
    rw [UnpackedFloat.neg, ofFloat?_pack_finite _ hm hcanonical, isMinus_neg]
  | infinity s => rw [hu] at h; cases h
  | notANumber => rw [hu] at h; cases h

lemma ofFloat?_abs (h : Binary.ofFloat? x = some b) :
    Binary.ofFloat? x.abs = some { b with negative := false } := by
  have hcanonical := canonical_ofFloat? h
  rw [Binary.ofFloat?_eq] at h
  change Binary.ofFloat? (.ofModel (.pack x.toModel.unpack.abs)) = _
  cases hu : x.toModel.unpack with
  | zero s =>
    rw [hu] at h
    cases h
    rw [UnpackedFloat.abs, ofFloat?_pack_zero]
    rfl
  | finite s m e hm =>
    rw [hu] at h
    cases h
    rw [UnpackedFloat.abs, ofFloat?_pack_finite _ hm hcanonical]
    rfl
  | infinity s => rw [hu] at h; cases h
  | notANumber => rw [hu] at h; cases h

section HasValue
variable {a : ℚ}

lemma HasValue.hasMinusSign_neg (hx : HasValue x a) : hasMinusSign (-x) = !hasMinusSign x := by
  obtain ⟨b, hb, -⟩ := hasValue_iff.1 hx
  rw [hasMinusSign_of_ofFloat? (ofFloat?_neg hb), hasMinusSign_of_ofFloat? hb]

lemma HasValue.abs_eq (hx : HasValue x a) (hsign : hasMinusSign x = false) : x.abs = x := by
  obtain ⟨b, hb, -⟩ := hasValue_iff.1 hx
  rw [hasMinusSign_of_ofFloat? hb] at hsign
  exact eq_of_ofFloat? (ofFloat?_abs hb) (by rw [hb, ← hsign])

lemma HasValue.abs_neg_eq (hx : HasValue x a) (hsign : hasMinusSign x = false) : (-x).abs = x := by
  obtain ⟨b, hb, -⟩ := hasValue_iff.1 hx
  rw [hasMinusSign_of_ofFloat? hb] at hsign
  exact eq_of_ofFloat? (ofFloat?_abs (ofFloat?_neg hb)) (by rw [hb, ← hsign])

end HasValue

/-! ### Numbers without a minus sign -/

/-- There is no minus sign; what is no number has no sign at all. -/
def Unsigned : UnpackedFloat → Prop
  | .zero s => s = .positive
  | .finite s _ _ _ => s = .positive
  | .infinity s => s = .positive
  | .notANumber => True

lemma hasMinusSign_eq (x : Float) :
    hasMinusSign x = isMinus (.ofBitVec (unpackSign (bitsOf x))) := by
  rw [isMinus_ofBitVec, toNat_unpackSign]
  rfl

lemma unsigned_unpack (h : hasMinusSign x = false) : Unsigned x.toModel.unpack := by
  have hsign : Sign.ofBitVec (unpackSign (bitsOf x)) = .positive := by
    rw [hasMinusSign_eq] at h
    cases hs : Sign.ofBitVec (unpackSign (bitsOf x)) with
    | negative => rw [hs] at h; cases h
    | positive => rfl
  change Unsigned (UnpackedFloat.unpack Format.binary64 (bitsOf x))
  unfold UnpackedFloat.unpack
  dsimp only
  split_ifs
  · exact hsign
  · trivial
  · exact hsign
  · exact hsign
  · exact hsign

lemma exists_pack_eq (h : Unsigned u) :
    ∃ exponent fraction, UnpackedFloat.pack Format.binary64 u =
      packComponents Format.binary64 .positive exponent fraction := by
  cases u with
  | zero s => exact ⟨_, _, by rw [show s = .positive from h]; rfl⟩
  | infinity s => exact ⟨_, _, by rw [show s = .positive from h]; rfl⟩
  | notANumber => exact ⟨_, _, rfl⟩
  | finite s m e hm =>
    obtain rfl : s = .positive := h
    unfold UnpackedFloat.pack
    dsimp only
    split_ifs
    · exact ⟨_, _, rfl⟩
    · exact ⟨_, _, rfl⟩
    · exact ⟨_, _, rfl⟩

lemma hasMinusSign_pack (h : Unsigned u) : hasMinusSign (.ofModel (.pack u)) = false := by
  obtain ⟨exponent, fraction, hpack⟩ := exists_pack_eq h
  have hbits : bitsOf (.ofModel (.pack u)) = packComponents Format.binary64 .positive exponent
      fraction := hpack
  rw [hasMinusSign_eq, hbits, ofBitVec_unpackSign_packComponents]
  rfl

/-! Rounding keeps the sign, so that only the signs of the parts count. -/

lemma unsigned_roundWithAccuracy (m : ℕ) (e : ℤ) (accuracy : Accuracy) :
    Unsigned (roundWithAccuracy Format.binary64 .positive m e accuracy) := by
  unfold roundWithAccuracy
  dsimp only
  split_ifs
  · rfl
  · rfl

lemma unsigned_normalize {m : ℤ} (hm : 0 ≤ m) (e : ℤ) :
    Unsigned (UnpackedFloat.normalize Format.binary64 m e .positive) := by
  unfold UnpackedFloat.normalize
  obtain rfl | hlt := hm.eq_or_lt
  · rfl
  · rw [compare_gt_iff_gt.2 hlt]
    exact unsigned_roundWithAccuracy _ _ _

lemma Unsigned.add (hu : Unsigned u) (hv : Unsigned v) :
    Unsigned (UnpackedFloat.add Format.binary64 u v) := by
  cases u with
  | notANumber => trivial
  | infinity s =>
    obtain rfl : s = .positive := hu
    cases v with
    | infinity s' =>
      obtain rfl : s' = .positive := hv
      rfl
    | notANumber => trivial
    | _ => rfl
  | zero s =>
    obtain rfl : s = .positive := hu
    cases v with
    | zero s' =>
      obtain rfl : s' = .positive := hv
      rfl
    | _ => exact hv
  | finite s m e hm =>
    obtain rfl : s = .positive := hu
    cases v with
    | finite s' m' e' hm' =>
      obtain rfl : s' = .positive := hv
      exact unsigned_normalize (Int.add_nonneg (Int.natCast_nonneg _) (Int.natCast_nonneg _)) _
    | zero s' => rfl
    | _ => exact hv

lemma Unsigned.mul (hu : Unsigned u) (hv : Unsigned v) :
    Unsigned (UnpackedFloat.mul Format.binary64 u v) := by
  cases u with
  | notANumber => trivial
  | infinity s =>
    obtain rfl : s = .positive := hu
    cases v with
    | infinity s' | finite s' m' e' hm' =>
      obtain rfl : s' = .positive := hv
      rfl
    | _ => trivial
  | zero s =>
    obtain rfl : s = .positive := hu
    cases v with
    | zero s' | finite s' m' e' hm' =>
      obtain rfl : s' = .positive := hv
      rfl
    | _ => trivial
  | finite s m e hm =>
    obtain rfl : s = .positive := hu
    cases v with
    | finite s' m' e' hm' =>
      obtain rfl : s' = .positive := hv
      exact unsigned_roundWithAccuracy _ _ _
    | zero s' | infinity s' =>
      obtain rfl : s' = .positive := hv
      rfl
    | notANumber => trivial

lemma Unsigned.div (hu : Unsigned u) (hv : Unsigned v) :
    Unsigned (UnpackedFloat.div Format.binary64 u v) := by
  cases u with
  | notANumber => trivial
  | infinity s =>
    obtain rfl : s = .positive := hu
    cases v with
    | zero s' | finite s' m' e' hm' =>
      obtain rfl : s' = .positive := hv
      rfl
    | _ => trivial
  | zero s =>
    obtain rfl : s = .positive := hu
    cases v with
    | infinity s' | finite s' m' e' hm' =>
      obtain rfl : s' = .positive := hv
      rfl
    | _ => trivial
  | finite s m e hm =>
    obtain rfl : s = .positive := hu
    cases v with
    | finite s' m' e' hm' =>
      obtain rfl : s' = .positive := hv
      exact unsigned_roundWithAccuracy _ _ _
    | zero s' | infinity s' =>
      obtain rfl : s' = .positive := hv
      rfl
    | notANumber => trivial

section Operations
variable (hx : hasMinusSign x = false) (hy : hasMinusSign y = false)
include hx hy

lemma hasMinusSign_add : hasMinusSign (x + y) = false :=
  hasMinusSign_pack (Unsigned.add (unsigned_unpack hx) (unsigned_unpack hy))

lemma hasMinusSign_mul : hasMinusSign (x * y) = false :=
  hasMinusSign_pack (Unsigned.mul (unsigned_unpack hx) (unsigned_unpack hy))

lemma hasMinusSign_div : hasMinusSign (x / y) = false :=
  hasMinusSign_pack (Unsigned.div (unsigned_unpack hx) (unsigned_unpack hy))

end Operations

/-! ### Decimal numbers -/

section Scientific
variable {n : ℕ} {e : ℤ}

lemma hasMinusSign_toFloat (n : UInt64) : hasMinusSign n.toFloat = false :=
  hasMinusSign_pack (u := .ofUInt64 Format.binary64 n) (unsigned_normalize (Int.natCast_nonneg _) 0)

lemma hasMinusSign_powerOfTen {e : ℕ} (h : e < 23) :
    hasMinusSign Float.exactlyRepresentablePowersOfTen[e] = false := by
  have hall : ∀ e : Fin 23, hasMinusSign Float.exactlyRepresentablePowersOfTen[e] = false := by
    decide +kernel
  exact hall ⟨e, h⟩

lemma unsigned_ofScientific (n : ℕ) (e : ℤ) :
    Unsigned (UnpackedFloat.ofScientific Format.binary64 n e) := by
  unfold UnpackedFloat.ofScientific
  split_ifs
  · rfl
  · rfl
  · rfl
  · exact Unsigned.mul rfl rfl
  · exact Unsigned.div rfl rfl

lemma hasMinusSign_ofScientific (n : ℕ) (negative : Bool) (e : ℕ) :
    hasMinusSign (Float.ofScientific n negative e) = false := by
  unfold Float.ofScientific
  split_ifs with hfast hsign hsign
  · exact hasMinusSign_div (hasMinusSign_toFloat _) (hasMinusSign_powerOfTen (by omega))
  · exact hasMinusSign_mul (hasMinusSign_toFloat _) (hasMinusSign_powerOfTen (by omega))
  · exact hasMinusSign_pack (unsigned_ofScientific n _)
  · exact hasMinusSign_pack (unsigned_ofScientific n _)

lemma hasMinusSign_scaledFloat (n : ℕ) (e : ℤ) : hasMinusSign (scaledFloat n e) = false := by
  unfold scaledFloat
  dsimp only
  split_ifs
  · exact hasMinusSign_ofScientific _ _ _
  · exact hasMinusSign_div (hasMinusSign_ofScientific _ _ _) (hasMinusSign_ofScientific _ _ _)
  · exact hasMinusSign_ofScientific _ _ _

end Scientific

lemma DecimalText.hasMinusSign_float (d : DecimalText) : hasMinusSign d.float = false :=
  hasMinusSign_scaledFloat _ _

end SkyResolver.Number
