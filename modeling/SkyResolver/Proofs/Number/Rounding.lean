import SkyResolver.Proofs.Number.Nearest

/-! Rounding of mantissas. A mantissa, a rounding bit and a sticky bit represent a number as exactly
as rounding needs; shifts keep it represented, so the mantissa and the exponent that come out are
those of the nearest double. -/
namespace SkyResolver.Number
open Float.Model Float.Model.UnpackedFloat

/-- A mantissa and an exponent are as doubles have them. -/
structure Canonical (m : ℕ) (e : ℤ) : Prop where
  small : m < 2 ^ 53
  low : -1074 ≤ e
  high : e ≤ 971
  normal : 2 ^ 52 ≤ m ∨ e = -1074

/-- One with a sign. -/
def signOne : Sign → ℚ
  | .negative => -1
  | .positive => 1

/-- A finite number as doubles have it, and its value. -/
def Denotes : UnpackedFloat → ℚ → Prop
  | .zero _, q => q = 0
  | .finite s m e _, q => Canonical m e ∧ q = signOne s * (m * 2 ^ e)
  | _, _ => False

/-! ### Represented numbers -/

/-- What an accuracy says of the part of a unit that is left out. -/
def Describes : Accuracy → ℚ → Prop
  | .exact, f => f = 0
  | .inexact half, f => 0 < f ∧ f < 1 ∧ compare f (1 / 2) = half

/-- The mantissa is what is left when a part of a unit is left out, and the bits describe that part.
-/
def Represents (em : ExtendedMantissa) (q : ℚ) : Prop :=
  ∃ f, Describes em.accuracy f ∧ q = em.mantissa + f

section Represents
variable {em : ExtendedMantissa} {q f : ℚ} {accuracy : Accuracy}

lemma Describes.nonneg (h : Describes accuracy f) : 0 ≤ f := by
  cases accuracy with
  | exact => exact (show f = 0 from h).ge
  | inexact half => exact h.1.le

lemma Describes.lt_one (h : Describes accuracy f) : f < 1 := by
  cases accuracy with
  | exact => exact (show f = 0 from h).trans_lt one_pos
  | inexact half => exact h.2.1

lemma accuracy_ofMantissaAndAccuracy (m : ℕ) (accuracy : Accuracy) :
    (ExtendedMantissa.ofMantissaAndAccuracy m accuracy).accuracy = accuracy ∧
      (ExtendedMantissa.ofMantissaAndAccuracy m accuracy).mantissa = m := by
  cases accuracy with
  | exact => exact ⟨rfl, rfl⟩
  | inexact half => cases half <;> exact ⟨rfl, rfl⟩

lemma represents_ofMantissaAndAccuracy (m : ℕ) (h : Describes accuracy f) :
    Represents (.ofMantissaAndAccuracy m accuracy) (m + f) := by
  obtain ⟨haccuracy, hmantissa⟩ := accuracy_ofMantissaAndAccuracy m accuracy
  exact ⟨f, haccuracy.symm ▸ h, by rw [hmantissa]⟩

lemma describes_inexact {half : Ordering} (h : 0 < f) (h' : f < 1)
    (hhalf : compare f (1 / 2) = half) :
    Describes (.inexact half) f := ⟨h, h', hhalf⟩

/-- The bits of a mantissa that is halved, by the parity of the mantissa and by what was left out
before. -/
lemma Represents.shiftRightOne (h : Represents em q) : Represents em.shiftRightOne (q / 2) := by
  obtain ⟨f, hf, rfl⟩ := h
  have hlow := hf.nonneg
  have hhigh := hf.lt_one
  have hparity : (em.mantissa : ℚ) = 2 * (em.mantissa / 2 : ℕ) + (em.mantissa % 2 : ℕ) := by
    exact_mod_cast (Nat.div_add_mod em.mantissa 2).symm
  refine ⟨((em.mantissa % 2 : ℕ) + f) / 2, ?_, by
    rw [hparity, ExtendedMantissa.shiftRightOne]; ring⟩
  obtain ⟨m, roundBit, stickyBit⟩ := em
  obtain heven | hodd := Nat.mod_two_eq_zero_or_one m
  · rw [ExtendedMantissa.shiftRightOne]
    simp only [heven]
    cases roundBit <;> cases stickyBit
    · have : f = 0 := hf
      simp [this, ExtendedMantissa.accuracy, Describes]
    all_goals
      have hpos : 0 < f := hf.1
      exact describes_inexact (by push_cast; linarith) (by push_cast; linarith)
        (compare_lt_iff_lt.2 (by push_cast; linarith))
  · rw [ExtendedMantissa.shiftRightOne]
    simp only [hodd]
    cases roundBit <;> cases stickyBit
    · have : f = 0 := hf
      exact describes_inexact (by push_cast; linarith) (by push_cast; linarith)
        (compare_eq_iff_eq.2 (by push_cast; linarith))
    all_goals
      have hpos : 0 < f := hf.1
      exact describes_inexact (by push_cast; linarith) (by push_cast; linarith)
        (compare_gt_iff_gt.2 (by push_cast; linarith))

lemma Represents.shiftRight (h : Represents em q) (n : ℕ) : Represents (em >>> n) (q / 2 ^ n) := by
  induction n with
  | zero => rwa [pow_zero, div_one]
  | succ n ih =>
    rw [pow_succ, ← div_div]
    exact ih.shiftRightOne

lemma Represents.roundedMantissa_eq (h : Represents em q) :
    (em.roundedMantissa : ℤ) = nearestWhole q := by
  obtain ⟨f, hf, rfl⟩ := h
  have hfloor : ⌊(em.mantissa : ℚ) + f⌋ = em.mantissa := by
    rw [Int.floor_natCast_add, Int.floor_eq_zero_iff.2 ⟨hf.nonneg, hf.lt_one⟩, add_zero]
  have hfract : Int.fract ((em.mantissa : ℚ) + f) = f := by
    rw [Int.fract_natCast_add, Int.fract_eq_self.2 ⟨hf.nonneg, hf.lt_one⟩]
  rw [nearestWhole, hfloor, hfract, ExtendedMantissa.roundedMantissa]
  cases haccuracy : em.accuracy with
  | exact =>
    rw [haccuracy] at hf
    have : f = 0 := hf
    rw [this, compare_lt_iff_lt.2 (by norm_num)]
    rfl
  | inexact half =>
    rw [haccuracy] at hf
    rw [hf.2.2]
    cases half <;> rfl

end Represents

/-! ### The rounded number -/

lemma targetExponent_binary64 (e : ℤ) : Format.binary64.targetExponent e = max (e - 53) (-1074) :=
  rfl

section Target
variable {m : ℕ} {e : ℤ} {f q : ℚ}

lemma two_zpow_log2_le (h : m ≠ 0) : (2 : ℚ) ^ (m.log2 : ℤ) ≤ m := by
  rw [zpow_natCast]
  exact_mod_cast Nat.log2_self_le h

lemma lt_two_zpow_log2 (m : ℕ) : (m : ℚ) + 1 ≤ 2 ^ ((m.log2 : ℤ) + 1) := by
  have : m + 1 ≤ 2 ^ (m.log2 + 1) := Nat.lt_log2_self
  have : ((m + 1 : ℕ) : ℚ) ≤ ((2 ^ (m.log2 + 1) : ℕ) : ℚ) := by exact_mod_cast this
  rw [show (m.log2 : ℤ) + 1 = ((m.log2 + 1 : ℕ) : ℤ) from rfl, zpow_natCast]
  push_cast at this
  exact this

/-- The exponent to which a mantissa is shifted is the one of the doubles of its size. -/
lemma targetExponent_eq (hf : 0 ≤ f) (hf' : f < 1) (hq : q = (m + f) * 2 ^ e)
    (hm : m = 0 → e ≤ -1074) :
    Format.binary64.targetExponent (totalExponent m e) = unitExponent q := by
  have hpos := two_zpow_pos e
  have hm0 : (0 : ℚ) ≤ m := m.cast_nonneg
  have habs : |q| = (m + f) * 2 ^ e := by
    rw [hq, abs_of_nonneg (mul_nonneg (by linarith) hpos.le)]
  have hlog := lt_two_zpow_log2 m
  rw [targetExponent_binary64, totalExponent, eq_comm]
  refine unitExponent_eq (le_max_right _ _) ?_ ?_
  · calc |q| < 2 ^ ((m.log2 : ℤ) + 1) * 2 ^ e := by
          rw [habs]
          exact mul_lt_mul_of_pos_right (by linarith) hpos
      _ = 2 ^ ((m.log2 : ℤ) + 1 + e) := (two_zpow_add _ _).symm
      _ ≤ _ := two_zpow_le (by omega)
  · obtain rfl | hne := eq_or_ne m 0
    · right
      have := hm rfl
      rw [Nat.log2_zero]
      omega
    · obtain hle | hgt := le_or_gt ((m.log2 : ℤ) + 1 + e - 53) (-1074)
      · exact .inr (max_eq_right hle)
      · left
        rw [max_eq_left hgt.le, habs, show (m.log2 : ℤ) + 1 + e - 53 + 52 = m.log2 + e by ring,
          two_zpow_add]
        exact mul_le_mul_of_nonneg_right (by linarith [two_zpow_log2_le hne]) hpos.le

end Target

lemma shiftToTargetExponent_eq (m : ℕ) (e : ℤ) (accuracy : Accuracy) :
    shiftToTargetExponent Format.binary64 m e accuracy =
      (ExtendedMantissa.ofMantissaAndAccuracy m accuracy >>>
          (Format.binary64.targetExponent (totalExponent m e) - e).toNat,
        e + (Format.binary64.targetExponent (totalExponent m e) - e).toNat) := rfl

section Shift
variable {m : ℕ} {e : ℤ}

lemma le_of_mul_lt (hm : 2 ^ 52 ≤ m) (h : (m : ℚ) * 2 ^ e < 2 ^ (1024 : ℤ)) : e ≤ 971 := by
  by_contra hlt
  have hm' : (2 : ℚ) ^ 52 ≤ m := by exact_mod_cast hm
  have : (2 : ℚ) ^ (1024 : ℤ) ≤ m * 2 ^ e :=
    calc (2 : ℚ) ^ (1024 : ℤ) ≤ 2 ^ (52 + e) := two_zpow_le (by omega)
      _ = 2 ^ 52 * 2 ^ e := two_zpow_add 52 e
      _ ≤ m * 2 ^ e := mul_le_mul_of_nonneg_right hm' (two_zpow_pos e).le
  linarith

/-- A mantissa of `2 ^ 53` is shifted once more; a smaller one stays. -/
lemma canonical_shiftToTargetExponent (hm : m ≤ 2 ^ 53) (he : -1074 ≤ e)
    (hnormal : 2 ^ 52 ≤ m ∨ e = -1074) (hbound : (m : ℚ) * 2 ^ e < 2 ^ (1024 : ℤ)) :
    Canonical (shiftToTargetExponent Format.binary64 m e .exact).1.mantissa
        (shiftToTargetExponent Format.binary64 m e .exact).2 ∧
      ((shiftToTargetExponent Format.binary64 m e .exact).1.mantissa : ℚ) *
        2 ^ (shiftToTargetExponent Format.binary64 m e .exact).2 = m * 2 ^ e := by
  rw [shiftToTargetExponent_eq, targetExponent_binary64, totalExponent]
  obtain hlt | rfl := hm.lt_or_eq
  · have hlog : m.log2 < 53 := by
      obtain rfl | hne := eq_or_ne m 0
      · rw [Nat.log2_zero]
        norm_num
      · exact (Nat.log2_lt hne).2 hlt
    have hshift : (max ((m.log2 : ℤ) + 1 + e - 53) (-1074) - e).toNat = 0 := by omega
    rw [hshift, Nat.cast_zero, add_zero]
    refine ⟨⟨hlt, he, ?_, hnormal⟩, rfl⟩
    obtain hle | rfl := hnormal
    · exact le_of_mul_lt hle hbound
    · norm_num
  · have hshift : (max (((2 ^ 53 : ℕ).log2 : ℤ) + 1 + e - 53) (-1074) - e).toNat = 1 := by
      rw [Nat.log2_two_pow]
      omega
    rw [hshift]
    have hvalue : ((2 ^ 52 : ℕ) : ℚ) * 2 ^ (e + 1) = (2 ^ 53 : ℕ) * 2 ^ e := by
      rw [two_zpow_add]
      push_cast
      ring
    have hsmall : 2 ^ 52 < 2 ^ 53 := by norm_num
    exact ⟨⟨hsmall, by omega, le_of_mul_lt le_rfl (hvalue ▸ hbound), .inl le_rfl⟩, hvalue⟩

end Shift

lemma denotes_dite {sign : Sign} {m : ℕ} {e : ℤ} {q : ℚ} (h : Canonical m e)
    (hq : q = signOne sign * (m * 2 ^ e)) :
    Denotes (if hm : m = 0 then .zero sign else .finite sign m e (Nat.pos_of_ne_zero hm)) q := by
  split
  · rename_i hm
    rw [hm, Nat.cast_zero, zero_mul, mul_zero] at hq
    exact hq
  · exact ⟨h, hq⟩

/-- The result of rounding is the double that is nearest to the number that the mantissa, its
exponent and its accuracy stand for, if there are enough bits. -/
theorem denotes_roundWithAccuracy {sign : Sign} {m : ℕ} {e : ℤ} {accuracy : Accuracy} {f q : ℚ}
    (hf : Describes accuracy f) (hq : q = (m + f) * 2 ^ e) (he : e ≤ unitExponent q)
    (hm : m = 0 → e ≤ -1074) (hbound : nearest q < 2 ^ (1024 : ℤ)) :
    Denotes (roundWithAccuracy Format.binary64 sign m e accuracy) (signOne sign * nearest q) := by
  have hpos := two_zpow_pos (unitExponent q)
  have htarget := targetExponent_eq hf.nonneg hf.lt_one hq hm
  -- Behind the first shift the extended mantissa represents the number in units of the doubles of
  -- its size.
  have hunits : ((m : ℚ) + f) / 2 ^ (unitExponent q - e).toNat = q / 2 ^ unitExponent q :=
    calc ((m : ℚ) + f) / 2 ^ (unitExponent q - e).toNat =
          (m + f) * 2 ^ e / (2 ^ (unitExponent q - e).toNat * 2 ^ e) :=
        (mul_div_mul_right _ _ (two_zpow_pos e).ne').symm
      _ = q / 2 ^ unitExponent q := by rw [← hq, ← two_zpow_eq_mul he]
  have hrounded := ((represents_ofMantissaAndAccuracy m hf).shiftRight
    (unitExponent q - e).toNat).roundedMantissa_eq
  rw [hunits] at hrounded
  have hexponent : e + ((unitExponent q - e).toNat : ℤ) = unitExponent q := by omega
  unfold roundWithAccuracy
  rw [shiftToTargetExponent_eq m e, htarget, hexponent]
  dsimp only
  generalize (ExtendedMantissa.ofMantissaAndAccuracy m accuracy >>>
    (unitExponent q - e).toNat).roundedMantissa = r
    at hrounded
  have hnearest : nearest q = r * 2 ^ unitExponent q := by
    rw [nearest, ← hrounded, Int.cast_natCast]
  have hr : r ≤ 2 ^ 53 := by
    have := abs_nearestWhole_le q
    rw [← hrounded, Nat.abs_cast] at this
    exact_mod_cast this
  have hnormal : 2 ^ 52 ≤ r ∨ unitExponent q = -1074 := by
    obtain hlt | heq := (le_unitExponent q).lt_or_eq
    · left
      have hqpos : 0 ≤ q := by
        rw [hq]
        exact mul_nonneg (add_nonneg m.cast_nonneg hf.nonneg) (two_zpow_pos e).le
      have hlow := le_abs_of_unitExponent hlt
      rw [abs_of_nonneg hqpos, add_comm, two_zpow_add, ← le_div_iff₀ hpos] at hlow
      have hlow : ((2 ^ 52 : ℤ) : ℚ) ≤ q / 2 ^ unitExponent q := by
        push_cast
        exact hlow
      have := nearestWhole_mono hlow
      rw [nearestWhole_intCast, ← hrounded] at this
      exact_mod_cast this
    · exact .inr heq.symm
  obtain ⟨hcanonical, hvalue⟩ :=
    canonical_shiftToTargetExponent hr (le_unitExponent q) hnormal (hnearest ▸ hbound)
  exact denotes_dite hcanonical (by rw [hvalue, hnearest])

end SkyResolver.Number
