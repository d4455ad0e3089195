import SkyResolver.Number.Binary
import SkyResolver.Proofs.Number.Rounding

/-! The values of doubles: what their bits stand for, as a sign, a mantissa and an exponent, and how
they are compared and negated. -/
namespace SkyResolver.Number
open Float.Model Float.Model.UnpackedFloat

/-- The double is finite, and this is its value. -/
def HasValue (x : Float) (q : ℚ) : Prop := Denotes x.toModel.unpack q

/-! ### The bits -/

section Bits
variable (bits : BitVec Format.binary64.numBits)

lemma toNat_unpackMantissa : (unpackMantissa bits).toNat = bits.toNat % twoTo 52 := by
  rw [unpackMantissa, BitVec.toNat_cast, BitVec.extractLsb_toNat, Nat.shiftRight_zero]
  rfl

lemma toNat_unpackExponent : (unpackExponent bits).toNat = bits.toNat / twoTo 52 % twoTo 11 := by
  rw [unpackExponent, BitVec.toNat_cast, BitVec.extractLsb_toNat, Nat.shiftRight_eq_div_pow]
  rfl

lemma toNat_unpackSign : (unpackSign bits).toNat = bits.toNat / twoTo 63 := by
  rw [unpackSign, BitVec.toNat_cast, BitVec.extractLsb_toNat, Nat.shiftRight_eq_div_pow]
  have := bits.isLt
  exact Nat.mod_eq_of_lt (Nat.div_lt_of_lt_mul this)

end Bits

/-- True for a minus. -/
def isMinus : Sign → Bool
  | .negative => true
  | .positive => false

/-- A finite number, with the exponent of the smallest doubles if it is zero. -/
def Binary.ofUnpacked? : UnpackedFloat → Option Binary
  | .zero s => some ⟨isMinus s, 0, -1074⟩
  | .finite s m e _ => some ⟨isMinus s, m, e⟩
  | _ => none

lemma isMinus_ofBitVec (b : BitVec 1) : isMinus (.ofBitVec b) = (b.toNat == 1) := by
  revert b
  decide

lemma exponent_eq_neg_one_iff (exponent : BitVec 11) : exponent = -1#11 ↔
    exponent.toNat = 2047 := by
  rw [← BitVec.toNat_inj]
  rfl

lemma exponent_eq_zero_iff (exponent : BitVec 11) : exponent = 0#11 ↔ exponent.toNat = 0 := by
  rw [← BitVec.toNat_inj]
  rfl

lemma toNat_append_one (fraction : BitVec 52) :
    (1#1 ++ fraction).toNat = fraction.toNat + twoTo 52 := by
  rw [BitVec.toNat_append, Nat.shiftLeft_eq, Nat.mul_comm,
    ← Nat.two_pow_add_eq_or_of_lt fraction.isLt, Nat.add_comm]
  rfl

/-- The number with the given fields of bits. -/
def Binary.ofFields? (negative : Bool) (exponent fraction : ℕ) : Option Binary :=
  if exponent = 2047 then none
  else if exponent = 0 then some ⟨negative, fraction, -1074⟩
  else some ⟨negative, fraction + twoTo 52, (exponent : ℤ) - 1075⟩

/-- The bits of a double. -/
def bitsOf (x : Float) : BitVec Format.binary64.numBits := x.toModel.toBits.toBitVec

lemma Binary.ofFloat?_eq_ofFields? (x : Float) : Binary.ofFloat? x =
    Binary.ofFields? (isMinus (.ofBitVec (unpackSign (bitsOf x)))) (unpackExponent (bitsOf x)).toNat
      (unpackMantissa (bitsOf x)).toNat := by
  rw [isMinus_ofBitVec, toNat_unpackSign, toNat_unpackExponent, toNat_unpackMantissa]
  rfl

lemma Binary.ofFloat?_eq (x : Float) : Binary.ofFloat? x = Binary.ofUnpacked? x.toModel.unpack := by
  have hunpack : x.toModel.unpack = UnpackedFloat.unpack Format.binary64 (bitsOf x) := rfl
  rw [Binary.ofFloat?_eq_ofFields?, hunpack, Binary.ofFields?]
  unfold UnpackedFloat.unpack
  simp only [exponent_eq_neg_one_iff, exponent_eq_zero_iff]
  split_ifs with hspecial hfraction hsubnormal hfraction
  · rfl
  · rfl
  · rw [hfraction]
    rfl
  · rw [Binary.ofUnpacked?, hsubnormal]
    rfl
  · rw [Binary.ofUnpacked?, toNat_append_one]
    rfl

lemma canonical_ofFloat? {x : Float} {b : Binary} (h : Binary.ofFloat? x = some b) :
    Canonical b.mantissa b.exponent := by
  have hfraction : x.toBits.toNat % twoTo 52 < 2 ^ 52 := Nat.mod_lt _ (twoTo_pos 52)
  have hexponent : x.toBits.toNat / twoTo 52 % twoTo 11 < 2048 := Nat.mod_lt _ (twoTo_pos 11)
  have htwoTo : twoTo 52 = 2 ^ 52 := rfl
  rw [Binary.ofFloat?] at h
  split_ifs at h with hspecial hsubnormal
  · cases h
    exact ⟨by dsimp only; omega, le_rfl, by norm_num, .inr rfl⟩
  · cases h
    exact ⟨by dsimp only; omega, by dsimp only; omega, by dsimp only; omega,
      .inl (by dsimp only; omega)⟩

/-! ### Values -/

/-- The value of a mantissa with a sign and an exponent. -/
def Binary.value (b : Binary) : ℚ := (if b.negative then -1 else 1) * (b.mantissa * 2 ^ b.exponent)

lemma signOne_eq (s : Sign) : signOne s = if isMinus s then -1 else 1 := by cases s <;> rfl

lemma hasValue_iff {x : Float} {q : ℚ} : HasValue x q ↔ ∃ b, Binary.ofFloat? x = some b ∧
    b.value = q := by
  constructor
  · intro h
    rw [Binary.ofFloat?_eq]
    unfold HasValue at h
    cases hx : x.toModel.unpack with
    | zero s =>
      rw [hx] at h
      exact ⟨⟨isMinus s, 0, -1074⟩, rfl, by rw [show q = 0 from h]; simp [Binary.value]⟩
    | finite s m e hm =>
      rw [hx] at h
      exact ⟨⟨isMinus s, m, e⟩, rfl, by rw [h.2, signOne_eq]; rfl⟩
    | infinity s => rw [hx] at h; exact h.elim
    | notANumber => rw [hx] at h; exact h.elim
  · rintro ⟨b, hb, rfl⟩
    have hcanonical := canonical_ofFloat? hb
    rw [Binary.ofFloat?_eq] at hb
    unfold HasValue
    cases hx : x.toModel.unpack with
    | zero s =>
      rw [hx] at hb
      cases hb
      simp [Denotes, Binary.value]
    | finite s m e hm =>
      rw [hx] at hb
      cases hb
      exact ⟨hcanonical, by rw [signOne_eq]; rfl⟩
    | infinity s => rw [hx] at hb; cases hb
    | notANumber => rw [hx] at hb; cases hb

lemma hasValue_value {x : Float} {b : Binary} (h : Binary.ofFloat? x = some b) :
    HasValue x b.value :=
  hasValue_iff.2 ⟨b, h, rfl⟩

/-! ### Packing -/

lemma ofBitVec_unpackSign_packComponents (s : Sign) (exponent : BitVec 11) (fraction : BitVec 52) :
    Sign.ofBitVec (unpackSign (packComponents Format.binary64 s exponent fraction)) = s := by
  simp only [unpackSign, packComponents, BitVec.extractLsb]
  rw [BitVec.extractLsb'_append_eq_of_le (by omega), BitVec.extractLsb'_append_eq_of_le (by omega)]
  cases s <;> rfl

lemma ofFloat?_pack {u : UnpackedFloat} {s : Sign} {exponent : BitVec 11} {fraction : BitVec 52}
    (h : UnpackedFloat.pack Format.binary64 u =
      packComponents Format.binary64 s exponent fraction) :
    Binary.ofFloat? (.ofModel (.pack u)) = Binary.ofFields? (isMinus s) exponent.toNat
      fraction.toNat := by
  have hbits : bitsOf (.ofModel (.pack u)) = packComponents Format.binary64 s exponent fraction := h
  rw [Binary.ofFloat?_eq_ofFields?, hbits, ofBitVec_unpackSign_packComponents,
    unpackExponent_packComponents, unpackMantissa_packComponents]

lemma ofFloat?_pack_zero (s : Sign) :
    Binary.ofFloat? (.ofModel (.pack (.zero s))) = some ⟨isMinus s, 0, -1074⟩ :=
  ofFloat?_pack (u := .zero s) (s := s) rfl

lemma log2_add_one_eq_iff {m : ℕ} (hm : 0 < m) (h : m < 2 ^ 53) : m.log2 + 1 = 53 ↔ 2 ^ 52 ≤ m := by
  rw [← Nat.le_log2 hm.ne']
  have := (Nat.log2_lt hm.ne').2 h
  omega

lemma ofFloat?_pack_finite (s : Sign) {m : ℕ} {e : ℤ} (hm : 0 < m) (h : Canonical m e) :
    Binary.ofFloat? (.ofModel (.pack (.finite s m e hm))) = some ⟨isMinus s, m, e⟩ := by
  have hsmall := h.small
  have hlow := h.low
  have hhigh := h.high
  have hbiased : (e + Format.binary64.exponentBias + (52 : ℕ) : ℤ).toNat = (e + 1075).toNat := by
    rw [show ((Format.binary64.exponentBias : ℕ) : ℤ) = 1023 from rfl]
    omega
  have hpack : UnpackedFloat.pack Format.binary64 (.finite s m e hm) =
      if 2 ^ 52 ≤ m then packComponents Format.binary64 s (BitVec.ofNat 11 (e + 1075).toNat)
        (BitVec.ofNat 52 m)
      else packComponents Format.binary64 s (BitVec.ofNat 11 0) (BitVec.ofNat 52 m) := by
    simp only [UnpackedFloat.pack, hbiased]
    rw [if_neg (by omega)]
    exact if_congr (log2_add_one_eq_iff hm hsmall) rfl rfl
  split at hpack
  · rename_i hnormal
    have hexponent : (e + 1075).toNat % 2 ^ 11 = (e + 1075).toNat := Nat.mod_eq_of_lt (by omega)
    have hfraction : m % 2 ^ 52 + twoTo 52 = m := by
      rw [show twoTo 52 = 2 ^ 52 from rfl]
      omega
    rw [ofFloat?_pack hpack, BitVec.toNat_ofNat, BitVec.toNat_ofNat, hexponent, Binary.ofFields?,
      if_neg (by omega), if_neg (by omega), hfraction,
      show (((e + 1075).toNat : ℕ) : ℤ) - 1075 = e by omega]
  · rename_i hsubnormal
    have he : e = -1074 := h.normal.resolve_left hsubnormal
    have hfraction : m % 2 ^ 52 = m := Nat.mod_eq_of_lt (by omega)
    rw [ofFloat?_pack hpack, BitVec.toNat_ofNat, BitVec.toNat_ofNat, hfraction, he]
    rfl

/-- A finite number keeps its value when it is packed. -/
theorem hasValue_pack {u : UnpackedFloat} {q : ℚ} (h : Denotes u q) :
    HasValue (.ofModel (.pack u)) q := by
  cases u with
  | zero s =>
    refine hasValue_iff.2 ⟨_, ofFloat?_pack_zero s, ?_⟩
    rw [show q = 0 from h]
    simp [Binary.value]
  | finite s m e hm =>
    refine hasValue_iff.2 ⟨_, ofFloat?_pack_finite s hm h.1, ?_⟩
    rw [h.2, signOne_eq]
    rfl
  | infinity s => exact h.elim
  | notANumber => exact h.elim

/-! ### Order -/

section Order
variable {m₁ m₂ : ℕ} {e₁ e₂ : ℤ}

lemma mul_lt_mul_of_exponent_lt (h₁ : Canonical m₁ e₁) (h₂ : Canonical m₂ e₂) (h : e₁ < e₂) :
    (m₁ : ℚ) * 2 ^ e₁ < m₂ * 2 ^ e₂ := by
  have hnormal : 2 ^ 52 ≤ m₂ := h₂.normal.resolve_right (by have := h₁.low; omega)
  have hsmall : (m₁ : ℚ) < 2 ^ 53 := by exact_mod_cast h₁.small
  calc (m₁ : ℚ) * 2 ^ e₁ < 2 ^ 53 * 2 ^ e₁ := mul_lt_mul_of_pos_right hsmall (two_zpow_pos e₁)
    _ = 2 ^ (53 + e₁) := (two_zpow_add 53 e₁).symm
    _ ≤ 2 ^ (52 + e₂) := two_zpow_le (by omega)
    _ = 2 ^ 52 * 2 ^ e₂ := two_zpow_add 52 e₂
    _ ≤ m₂ * 2 ^ e₂ := mul_le_mul_of_nonneg_right (by exact_mod_cast hnormal) (two_zpow_pos e₂).le

lemma compare_canonical (h₁ : Canonical m₁ e₁) (h₂ : Canonical m₂ e₂) :
    (compare e₁ e₂).then (compare m₁ m₂) = compare ((m₁ : ℚ) * 2 ^ e₁) (m₂ * 2 ^ e₂) := by
  obtain hlt | rfl | hgt := lt_trichotomy e₁ e₂
  · rw [compare_lt_iff_lt.2 hlt, compare_lt_iff_lt.2 (mul_lt_mul_of_exponent_lt h₁ h₂ hlt)]
    rfl
  · have hpos := two_zpow_pos e₁
    rw [compare_eq_iff_eq.2 rfl, Ordering.then]
    obtain hlt | rfl | hgt := lt_trichotomy m₁ m₂
    · rw [compare_lt_iff_lt.2 hlt,
        compare_lt_iff_lt.2 (mul_lt_mul_of_pos_right (by exact_mod_cast hlt) hpos)]
    · rw [compare_eq_iff_eq.2 rfl, compare_eq_iff_eq.2 rfl]
    · rw [compare_gt_iff_gt.2 hgt,
        compare_gt_iff_gt.2 (mul_lt_mul_of_pos_right (by exact_mod_cast hgt) hpos)]
  · rw [compare_gt_iff_gt.2 hgt, compare_gt_iff_gt.2 (mul_lt_mul_of_exponent_lt h₂ h₁ hgt)]
    rfl

end Order

lemma compare_neg_neg (a b : ℚ) : compare (-a) (-b) = (compare a b).swap := by
  obtain hlt | rfl | hgt := lt_trichotomy a b
  · rw [compare_lt_iff_lt.2 hlt, compare_gt_iff_gt.2 (neg_lt_neg hlt)]
    rfl
  · rw [compare_eq_iff_eq.2 rfl, compare_eq_iff_eq.2 rfl]
    rfl
  · rw [compare_gt_iff_gt.2 hgt, compare_lt_iff_lt.2 (neg_lt_neg hgt)]
    rfl

/-- Finite numbers are compared by their values. -/
theorem Denotes.compare_eq {u v : UnpackedFloat} {a b : ℚ} (hu : Denotes u a) (hv : Denotes v b) :
    u.compare v = some (compare a b) := by
  have hpos {m : ℕ} {e : ℤ} (hm : 0 < m) : (0 : ℚ) < m * 2 ^ e :=
    mul_pos (by exact_mod_cast hm) (two_zpow_pos e)
  cases u with
  | zero s =>
    obtain rfl : a = 0 := hu
    cases v with
    | zero s' =>
      obtain rfl : b = 0 := hv
      rw [compare_eq_iff_eq.2 rfl]
      rfl
    | finite s' m e hm =>
      obtain ⟨-, rfl⟩ := hv
      have := hpos (e := e) hm
      cases s' with
      | negative => rw [compare_gt_iff_gt.2 (by rw [signOne]; linarith)]; rfl
      | positive => rw [compare_lt_iff_lt.2 (by rw [signOne]; linarith)]; rfl
    | infinity s' => exact hv.elim
    | notANumber => exact hv.elim
  | finite s m e hm =>
    obtain ⟨hcanonical, rfl⟩ := hu
    have hp := hpos (e := e) hm
    cases v with
    | zero s' =>
      obtain rfl : b = 0 := hv
      cases s with
      | negative => rw [compare_lt_iff_lt.2 (by rw [signOne]; linarith)]; rfl
      | positive => rw [compare_gt_iff_gt.2 (by rw [signOne]; linarith)]; rfl
    | finite s' m' e' hm' =>
      obtain ⟨hcanonical', rfl⟩ := hv
      have hp' := hpos (e := e') hm'
      cases s with
      | negative =>
        cases s' with
        | negative =>
          rw [UnpackedFloat.compare, compare_canonical hcanonical hcanonical', signOne,
            neg_one_mul, neg_one_mul, compare_neg_neg]
        | positive => rw [compare_lt_iff_lt.2 (by rw [signOne, signOne]; linarith)]; rfl
      | positive =>
        cases s' with
        | negative => rw [compare_gt_iff_gt.2 (by rw [signOne, signOne]; linarith)]; rfl
        | positive => rw [UnpackedFloat.compare, compare_canonical hcanonical hcanonical', signOne,
            one_mul, one_mul]
    | infinity s' => exact hv.elim
    | notANumber => exact hv.elim
  | infinity s => exact hu.elim
  | notANumber => exact hu.elim

lemma signOne_neg (s : Sign) : signOne (-s) = -signOne s := by
  cases s
  · exact (neg_neg 1).symm
  · rfl

section HasValue
variable {x y : Float} {a b : ℚ}

lemma lt_def : x < y ↔ x.toModel.unpack.compare y.toModel.unpack = some .lt := by
  change decide ((x.toModel.unpack.compare y.toModel.unpack == some .lt) = true) = true ↔ _
  rw [decide_eq_true_eq, beq_iff_eq]

lemma HasValue.lt_iff (hx : HasValue x a) (hy : HasValue y b) : x < y ↔ a < b := by
  rw [lt_def, Denotes.compare_eq hx hy, Option.some.injEq, compare_lt_iff_lt]

lemma le_def : x ≤ y ↔ (x.toModel.unpack.compare y.toModel.unpack).any (·.isLE) = true := by
  change decide ((x.toModel.unpack.compare y.toModel.unpack).any (·.isLE) = true) = true ↔ _
  rw [decide_eq_true_eq]

lemma float_le_of_lt (h : x < y) : x ≤ y := by
  rw [le_def, lt_def.1 h]
  rfl

lemma HasValue.le_iff (hx : HasValue x a) (hy : HasValue y b) : x ≤ y ↔ a ≤ b := by
  rw [le_def, Denotes.compare_eq hx hy, Option.any_some, Ordering.isLE_iff_ne_gt]
  exact compare_le_iff_le

lemma HasValue.unique (hx : HasValue x a) (hx' : HasValue x b) : a = b := by
  obtain ⟨c, hc, rfl⟩ := hasValue_iff.1 hx
  obtain ⟨c', hc', rfl⟩ := hasValue_iff.1 hx'
  rw [hc] at hc'
  rw [Option.some.inj hc']

lemma Denotes.neg {u : UnpackedFloat} (hu : Denotes u a) : Denotes u.neg (-a) := by
  cases u with
  | zero s => exact neg_eq_zero.2 hu
  | finite s m e hm => exact ⟨hu.1, by rw [hu.2, signOne_neg, neg_mul]⟩
  | infinity s => exact hu.elim
  | notANumber => exact hu.elim

lemma Denotes.abs {u : UnpackedFloat} (hu : Denotes u a) : Denotes u.abs |a| := by
  cases u with
  | zero s => exact abs_eq_zero.2 hu
  | finite s m e hm =>
    refine ⟨hu.1, ?_⟩
    rw [hu.2, abs_mul, abs_of_nonneg (mul_nonneg m.cast_nonneg (two_zpow_pos e).le)]
    cases s <;> simp [signOne]
  | infinity s => exact hu.elim
  | notANumber => exact hu.elim

lemma HasValue.neg (hx : HasValue x a) : HasValue (-x) (-a) := hasValue_pack (Denotes.neg hx)

lemma HasValue.abs (hx : HasValue x a) : HasValue x.abs |a| := hasValue_pack (Denotes.abs hx)

lemma isFinite_iff : x.isFinite = true ↔ ∃ q, HasValue x q := by
  constructor
  · intro h
    change x.toModel.unpack.isFinite = true at h
    have hvalue : ∃ b, Binary.ofFloat? x = some b := by
      rw [Binary.ofFloat?_eq]
      cases hu : x.toModel.unpack with
      | zero s => exact ⟨_, rfl⟩
      | finite s m e hm => exact ⟨_, rfl⟩
      | infinity s => rw [hu] at h; cases h
      | notANumber => rw [hu] at h; cases h
    obtain ⟨b, hb⟩ := hvalue
    exact ⟨_, hasValue_value hb⟩
  · rintro ⟨q, hq⟩
    change x.toModel.unpack.isFinite = true
    unfold HasValue at hq
    cases hu : x.toModel.unpack with
    | zero s => rfl
    | finite s m e hm => rfl
    | infinity s => rw [hu] at hq; exact hq.elim
    | notANumber => rw [hu] at hq; exact hq.elim

lemma Denotes.not_le_negative {u : UnpackedFloat} (h : Denotes u a) :
    ((u.compare (.infinity .negative)).any (·.isLE)) = false := by
  cases u with
  | infinity s => exact h.elim
  | _ => rfl

lemma Denotes.not_positive_le {u : UnpackedFloat} (h : Denotes u a) :
    (((UnpackedFloat.infinity .positive).compare u).any (·.isLE)) = false := by
  cases u with
  | infinity s => exact h.elim
  | _ => rfl

/-- A number between finite ones is finite. -/
lemma exists_hasValue_of_le {z : Float} (hx : HasValue x a) (hy : HasValue y b) (hxz : x ≤ z)
    (hzy : z ≤ y) :
    ∃ q, HasValue z q := by
  rw [← isFinite_iff]
  change z.toModel.unpack.isFinite = true
  rw [le_def] at hxz hzy
  cases hu : z.toModel.unpack with
  | zero s => rfl
  | finite s m e hm => rfl
  | notANumber =>
    rw [hu] at hzy
    cases hzy
  | infinity s =>
    rw [hu] at hxz hzy
    cases s with
    | negative => exact absurd hxz (by rw [Denotes.not_le_negative hx]; nofun)
    | positive => exact absurd hzy (by rw [Denotes.not_positive_le hy]; nofun)

end HasValue
end SkyResolver.Number
