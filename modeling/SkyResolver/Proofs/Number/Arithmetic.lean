import SkyResolver.Proofs.Number.Value

/-! The four operations on doubles. Each result is the double that is nearest to the exact one, as
long as that is small enough. -/
namespace SkyResolver.Number
open Float.Model Float.Model.UnpackedFloat

lemma Canonical.representable {m : ℕ} {e : ℤ} (h : Canonical m e) : Representable (m * 2 ^ e) :=
  ⟨m, e, by rw [Nat.abs_cast]; exact_mod_cast h.small, h.low, by rw [Int.cast_natCast]⟩

lemma Denotes.representable {u : UnpackedFloat} {q : ℚ} (h : Denotes u q) : Representable q := by
  cases u with
  | zero s =>
    rw [show q = 0 from h]
    exact ⟨0, 0, by norm_num, by norm_num, by norm_num⟩
  | finite s m e hm =>
    rw [h.2]
    cases s with
    | negative => simpa [signOne] using h.1.representable.neg
    | positive => simpa [signOne] using h.1.representable
  | infinity s => exact h.elim
  | notANumber => exact h.elim

lemma HasValue.representable {x : Float} {q : ℚ} (h : HasValue x q) : Representable q :=
  Denotes.representable h

/-! ### Sums and differences -/

section Normalize
variable {m : ℕ} {e : ℤ} {q : ℚ}

lemma decreaseExponent_eq (m : ℕ) (e target : ℤ) :
    decreaseExponent m e target = (m <<< (e - target).toNat, e - (e - target).toNat) := rfl

lemma cast_shiftLeft_mul (m n : ℕ) (e : ℤ) : ((m <<< n : ℕ) : ℚ) * 2 ^ (e - n) = m * 2 ^ e := by
  have hpower : (2 : ℚ) ^ e = 2 ^ n * 2 ^ (e - n) := by
    rw [← zpow_natCast, ← two_zpow_add, add_sub_cancel]
  rw [Nat.shiftLeft_eq, hpower]
  push_cast
  ring

/-- Without a part that is left out, a mantissa is rounded whatever its size. -/
lemma denotes_round (sign : Sign) (hm : 0 < m) (hq : q = m * 2 ^ e)
    (hbound : nearest q < 2 ^ (1024 : ℤ)) :
    Denotes (UnpackedFloat.round Format.binary64 sign m e) (signOne sign * nearest q) := by
  have htarget : Format.binary64.targetExponent (totalExponent m e) = unitExponent q :=
    targetExponent_eq (f := 0) le_rfl one_pos (by rw [hq, add_zero]) fun h => absurd h hm.ne'
  rw [UnpackedFloat.round, htarget, decreaseExponent_eq]
  refine denotes_roundWithAccuracy (f := 0) rfl ?_ (by omega) (fun h => ?_) hbound
  · rw [add_zero, cast_shiftLeft_mul, hq]
  · rw [Nat.shiftLeft_eq, Nat.mul_eq_zero] at h
    exact absurd (h.resolve_right (by positivity)) hm.ne'

lemma denotes_normalize {m : ℤ} {zeroSign : Sign} (hq : q = m * 2 ^ e)
    (hbound : |nearest q| < 2 ^ (1024 : ℤ)) :
    Denotes (UnpackedFloat.normalize Format.binary64 m e zeroSign) (nearest q) := by
  obtain ⟨hlow, hhigh⟩ := abs_lt.1 hbound
  unfold UnpackedFloat.normalize
  obtain hlt | rfl | hgt := lt_trichotomy m 0
  · rw [compare_lt_iff_lt.2 hlt]
    obtain ⟨n, hn⟩ := Int.eq_ofNat_of_zero_le (show 0 ≤ -m by omega)
    have hmq : -q = n * 2 ^ e := by
      rw [hq, ← neg_mul, ← Int.cast_neg, hn, Int.cast_natCast]
    have := denotes_round .negative (m := n) (by omega) hmq (by rw [nearest_neg]; linarith)
    rw [signOne, nearest_neg, neg_one_mul, neg_neg] at this
    rwa [hn, Int.toNat_natCast]
  · rw [compare_eq_iff_eq.2 rfl, hq, Int.cast_zero, zero_mul, nearest_zero]
    rfl
  · rw [compare_gt_iff_gt.2 hgt]
    obtain ⟨n, rfl⟩ := Int.eq_ofNat_of_zero_le hgt.le
    have := denotes_round .positive (m := n) (by omega) (by rw [hq, Int.cast_natCast]) hhigh
    rwa [signOne, one_mul] at this

end Normalize

section Sum
variable {u v : UnpackedFloat} {a b : ℚ}

lemma cast_apply (s : Sign) (n : ℤ) : ((s.apply n : ℤ) : ℚ) = signOne s * n := by
  cases s <;> simp [Sign.apply, signOne]

lemma Denotes.add (hu : Denotes u a) (hv : Denotes v b)
    (hbound : |nearest (a + b)| < 2 ^ (1024 : ℤ)) :
    Denotes (UnpackedFloat.add Format.binary64 u v) (nearest (a + b)) := by
  cases u with
  | zero s =>
    obtain rfl : a = 0 := hu
    rw [zero_add, hv.representable.nearest_eq]
    cases v with
    | zero s' =>
      obtain rfl : b = 0 := hv
      rw [UnpackedFloat.add]
      split <;> rfl
    | finite s' m' e' hm' => exact hv
    | infinity s' => exact hv.elim
    | notANumber => exact hv.elim
  | finite s m e hm =>
    cases v with
    | zero s' =>
      obtain rfl : b = 0 := hv
      rw [add_zero, hu.representable.nearest_eq]
      exact hu
    | finite s' m' e' hm' =>
      refine denotes_normalize ?_ hbound
      -- Both mantissas are taken to the smaller one of the exponents.
      have hexponent : e - ((e - min e e').toNat : ℤ) = min e e' := by omega
      have hexponent' : e' - ((e' - min e e').toNat : ℤ) = min e e' := by omega
      have hm := cast_shiftLeft_mul m (e - min e e').toNat e
      have hm' := cast_shiftLeft_mul m' (e' - min e e').toNat e'
      rw [hexponent] at hm
      rw [hexponent'] at hm'
      rw [hu.2, hv.2, ← hm, ← hm', Int.cast_add, cast_apply, cast_apply, Int.cast_natCast,
        Int.cast_natCast]
      ring
    | infinity s' => exact hv.elim
    | notANumber => exact hv.elim
  | infinity s => exact hu.elim
  | notANumber => exact hu.elim

lemma apply_neg (s : Sign) (n : ℤ) : (-s).apply n = -s.apply n := by
  cases s
  · exact (neg_neg n).symm
  · rfl

lemma Denotes.sub_eq (hu : Denotes u a) (hv : Denotes v b) :
    UnpackedFloat.sub Format.binary64 u v = UnpackedFloat.add Format.binary64 u v.neg := by
  cases u with
  | zero s =>
    cases v with
    | infinity s' => exact hv.elim
    | _ => rfl
  | finite s m e hm =>
    cases v with
    | zero s' => rfl
    | finite s' m' e' hm' =>
      rw [UnpackedFloat.sub, UnpackedFloat.neg, UnpackedFloat.add]
      dsimp only
      rw [apply_neg, sub_eq_add_neg]
    | infinity s' => exact hv.elim
    | notANumber => exact hv.elim
  | infinity s => exact hu.elim
  | notANumber => exact hu.elim

lemma Denotes.sub (hu : Denotes u a) (hv : Denotes v b)
    (hbound : |nearest (a - b)| < 2 ^ (1024 : ℤ)) :
    Denotes (UnpackedFloat.sub Format.binary64 u v) (nearest (a - b)) := by
  rw [hu.sub_eq hv, sub_eq_add_neg]
  exact hu.add hv.neg (by rwa [← sub_eq_add_neg])

end Sum

/-! ### Products and quotients -/

section Product
variable {u v : UnpackedFloat} {a b q : ℚ} {m₁ m₂ : ℕ} {e₁ e₂ : ℤ}

lemma le_unitExponent_of_le {e : ℤ} (h : 2 ^ (e + 52) ≤ |q|) : e ≤ unitExponent q := by
  by_contra hlt
  have := (h.trans_lt (abs_lt_of_unitExponent q)).trans_le
    (two_zpow_le (show unitExponent q + 53 ≤ e + 52 by omega))
  exact this.false

lemma signOne_mul (s s' : Sign) : signOne (s * s') = signOne s * signOne s' := by
  cases s <;> cases s' <;> norm_num [signOne]

lemma signOne_div (s s' : Sign) : signOne (s / s') = signOne s / signOne s' := by
  cases s <;> cases s' <;> norm_num [signOne] <;> rfl

lemma abs_signOne (s : Sign) : |signOne s| = 1 := by cases s <;> norm_num [signOne]

lemma nearest_signOne_mul (s : Sign) (q : ℚ) : nearest (signOne s * q) = signOne s * nearest q := by
  cases s <;> simp [signOne]

/-- The product of two mantissas is rounded well if it is long enough or its exponent small enough.
-/
lemma denotes_mul_finite (s₁ s₂ : Sign) (h₁ : 0 < m₁) (h₂ : 0 < m₂)
    (hq : q = (m₁ * 2 ^ e₁) * (m₂ * 2 ^ e₂)) (hlong : 2 ^ 52 ≤ m₁ * m₂ ∨ e₁ + e₂ ≤ -1074)
    (hbound : nearest q < 2 ^ (1024 : ℤ)) :
    Denotes (UnpackedFloat.mul Format.binary64 (.finite s₁ m₁ e₁ h₁) (.finite s₂ m₂ e₂ h₂))
      (signOne (s₁ * s₂) * nearest q) := by
  have hvalue : q = ((m₁ * m₂ : ℕ) + 0) * 2 ^ (e₁ + e₂) := by
    rw [hq, two_zpow_add]
    push_cast
    ring
  refine denotes_roundWithAccuracy rfl hvalue ?_ (fun h => absurd h (by positivity)) hbound
  obtain hlong | hlow := hlong
  · refine le_unitExponent_of_le ?_
    have hlong : (2 : ℚ) ^ 52 ≤ (m₁ * m₂ : ℕ) := by exact_mod_cast hlong
    rw [hvalue, add_zero, abs_of_nonneg (mul_nonneg (Nat.cast_nonneg _) (two_zpow_pos _).le),
      add_comm, two_zpow_add]
    exact mul_le_mul_of_nonneg_right hlong (two_zpow_pos _).le
  · exact hlow.trans (le_unitExponent q)

lemma Denotes.mul (hu : Denotes u a) (hv : Denotes v b)
    (hbound : |nearest (a * b)| < 2 ^ (1024 : ℤ)) :
    Denotes (UnpackedFloat.mul Format.binary64 u v) (nearest (a * b)) := by
  cases u with
  | zero s =>
    obtain rfl : a = 0 := hu
    rw [zero_mul, nearest_zero]
    cases v with
    | infinity s' => exact hv.elim
    | notANumber => exact hv.elim
    | _ => rfl
  | finite s m e hm =>
    cases v with
    | zero s' =>
      obtain rfl : b = 0 := hv
      rw [mul_zero, nearest_zero]
      rfl
    | finite s' m' e' hm' =>
      have hvalue : a * b = signOne (s * s') * ((m * 2 ^ e) * (m' * 2 ^ e')) := by
        rw [hu.2, hv.2, signOne_mul]
        ring
      have hlong : 2 ^ 52 ≤ m * m' ∨ e + e' ≤ -1074 := by
        obtain hnormal | he := hu.1.normal
        · exact .inl (hnormal.trans (Nat.le_mul_of_pos_right m hm'))
        · obtain hnormal' | he' := hv.1.normal
          · exact .inl (hnormal'.trans (Nat.le_mul_of_pos_left m' hm))
          · exact .inr (by omega)
      rw [hvalue, nearest_signOne_mul] at hbound ⊢
      refine denotes_mul_finite _ _ hm hm' rfl hlong ((le_abs_self _).trans_lt ?_)
      rwa [abs_mul, abs_signOne, one_mul] at hbound
    | infinity s' => exact hv.elim
    | notANumber => exact hv.elim
  | infinity s => exact hu.elim
  | notANumber => exact hu.elim

/-- The remainder of a division describes what the quotient leaves out. -/
lemma describes_accuracyOfFraction {r d : ℕ} (h : r < d) :
    Describes (accuracyOfFraction r d) (r / d) := by
  have hd : (0 : ℚ) < d := by exact_mod_cast (Nat.zero_le r).trans_lt h
  unfold accuracyOfFraction
  split
  · rename_i hr
    rw [hr, Nat.cast_zero, zero_div]
    rfl
  · rename_i hr
    have hrpos : (0 : ℚ) < r := by exact_mod_cast Nat.pos_of_ne_zero hr
    refine ⟨div_pos hrpos hd, (div_lt_one hd).2 (by exact_mod_cast h), ?_⟩
    obtain hlt | heq | hgt := lt_trichotomy (2 * r) d
    · rw [compare_lt_iff_lt.2 hlt, compare_lt_iff_lt, div_lt_div_iff₀ hd (by norm_num)]
      have : (2 : ℚ) * r < d := by exact_mod_cast hlt
      linarith
    · rw [compare_eq_iff_eq.2 heq, compare_eq_iff_eq, div_eq_div_iff hd.ne' (by norm_num)]
      have : (2 : ℚ) * r = d := by exact_mod_cast heq
      linarith
    · rw [compare_gt_iff_gt.2 hgt, compare_gt_iff_gt, div_lt_div_iff₀ (by norm_num) hd]
      have : (d : ℚ) < 2 * r := by exact_mod_cast hgt
      linarith

/-- The exponent of a quotient leaves enough bits for rounding. -/
lemma le_quotient {target : ℤ} (h₁ : 0 < m₁) (h₂ : 0 < m₂) (hq : q = (m₁ * 2 ^ e₁) / (m₂ * 2 ^ e₂))
    (htarget : target ≤ totalExponent m₁ e₁ - totalExponent m₂ e₂ - 53) :
    2 ^ (target + 52) ≤ q := by
  have hlog₁ := two_zpow_log2_le h₁.ne'
  have hlog₂ := lt_two_zpow_log2 m₂
  have hm₂ : (0 : ℚ) < m₂ := by exact_mod_cast h₂
  rw [hq, le_div_iff₀ (mul_pos hm₂ (two_zpow_pos e₂))]
  calc (2 : ℚ) ^ (target + 52) * (m₂ * 2 ^ e₂) ≤
    2 ^ (target + 52) * (2 ^ ((m₂.log2 : ℤ) + 1) * 2 ^ e₂) := by
        refine mul_le_mul_of_nonneg_left
          (mul_le_mul_of_nonneg_right (by linarith) (two_zpow_pos e₂).le) (two_zpow_pos _).le
    _ = 2 ^ (target + 52 + (m₂.log2 + 1 + e₂)) := by rw [← two_zpow_add, ← two_zpow_add]
    _ ≤ 2 ^ (m₁.log2 + e₁) := two_zpow_le (by unfold totalExponent at htarget; omega)
    _ = 2 ^ (m₁.log2 : ℤ) * 2 ^ e₁ := two_zpow_add _ _
    _ ≤ m₁ * 2 ^ e₁ := mul_le_mul_of_nonneg_right hlog₁ (two_zpow_pos e₁).le

lemma denotes_div_finite (s₁ s₂ : Sign) (h₁ : 0 < m₁) (h₂ : 0 < m₂)
    (hq : q = (m₁ * 2 ^ e₁) / (m₂ * 2 ^ e₂)) (hbound : nearest q < 2 ^ (1024 : ℤ)) :
    Denotes (UnpackedFloat.div Format.binary64 (.finite s₁ m₁ e₁ h₁) (.finite s₂ m₂ e₂ h₂))
      (signOne (s₁ / s₂) * nearest q) := by
  have hm₂ : (0 : ℚ) < m₂ := by exact_mod_cast h₂
  generalize htarget : min (e₁ - e₂)
    (Format.binary64.targetExponent (totalExponent m₁ e₁ - totalExponent m₂ e₂)) =
    target
  generalize hm : m₁ <<< (e₁ - e₂ - target).toNat = m
  have hdiv : UnpackedFloat.div Format.binary64 (.finite s₁ m₁ e₁ h₁) (.finite s₂ m₂ e₂ h₂) =
      roundWithAccuracy Format.binary64 (s₁ / s₂)
      (m / m₂) target (accuracyOfFraction (m % m₂) m₂) := by
    rw [← hm, ← htarget]
    rfl
  rw [targetExponent_binary64] at htarget
  have hexponent : e₁ - e₂ - ((e₁ - e₂ - target).toNat : ℤ) = target := by omega
  have hshift := cast_shiftLeft_mul m₁ (e₁ - e₂ - target).toNat (e₁ - e₂)
  rw [hexponent, hm] at hshift
  have hsplit : (m : ℚ) = (m / m₂ : ℕ) * m₂ + (m % m₂ : ℕ) := by
    exact_mod_cast (Nat.div_add_mod' m m₂).symm
  have hvalue : q = ((m / m₂ : ℕ) + (m % m₂ : ℕ) / m₂) * 2 ^ target := by
    have hpower : (2 : ℚ) ^ (e₁ - e₂) = 2 ^ e₁ / 2 ^ e₂ := zpow_sub₀ (by norm_num) e₁ e₂
    rw [hq, mul_div_mul_comm, ← hpower, div_mul_eq_mul_div, ← hshift, hsplit]
    field_simp
  have hlarge : -1074 < target → 2 ^ (target + 52) ≤ q := fun h => le_quotient h₁ h₂ hq (by omega)
  rw [hdiv]
  refine denotes_roundWithAccuracy (describes_accuracyOfFraction (Nat.mod_lt m h₂))
    hvalue ?_ ?_ hbound
  · obtain hle | hgt := le_or_gt target (-1074)
    · exact hle.trans (le_unitExponent q)
    · exact le_unitExponent_of_le ((hlarge hgt).trans (le_abs_self q))
  · -- A quotient whose mantissa vanishes is below the unit of its exponent.
    intro hzero
    by_contra hgt
    have hlow := hlarge (by omega)
    have hfraction := (describes_accuracyOfFraction (Nat.mod_lt m h₂)).lt_one
    rw [hvalue, hzero, Nat.cast_zero, zero_add, two_zpow_add, mul_comm] at hlow
    have := le_of_mul_le_mul_right hlow (two_zpow_pos target)
    norm_num at this
    linarith

lemma Denotes.div (hu : Denotes u a) (hv : Denotes v b) (hb : b ≠ 0)
    (hbound : |nearest (a / b)| < 2 ^ (1024 : ℤ)) :
    Denotes (UnpackedFloat.div Format.binary64 u v) (nearest (a / b)) := by
  cases v with
  | zero s' => exact absurd hv hb
  | finite s' m' e' hm' =>
    cases u with
    | zero s =>
      obtain rfl : a = 0 := hu
      rw [zero_div, nearest_zero]
      rfl
    | finite s m e hm =>
      have hvalue : a / b = signOne (s / s') * ((m * 2 ^ e) / (m' * 2 ^ e')) := by
        rw [hu.2, hv.2, signOne_div, mul_div_mul_comm]
      rw [hvalue, nearest_signOne_mul] at hbound ⊢
      refine denotes_div_finite _ _ hm hm' rfl ((le_abs_self _).trans_lt ?_)
      rwa [abs_mul, abs_signOne, one_mul] at hbound
    | infinity s => exact hu.elim
    | notANumber => exact hu.elim
  | infinity s' => exact hv.elim
  | notANumber => exact hv.elim

end Product

lemma Denotes.abs_lt {u : UnpackedFloat} {q : ℚ} (h : Denotes u q) : |q| < 2 ^ (1024 : ℤ) := by
  cases u with
  | zero s =>
    rw [show q = 0 from h, abs_zero]
    positivity
  | finite s m e hm =>
    obtain ⟨hcanonical, rfl⟩ := h
    have hm' : (m : ℚ) < 2 ^ (53 : ℤ) := by exact_mod_cast hcanonical.small
    rw [abs_mul, abs_signOne, one_mul, abs_of_nonneg (by positivity)]
    calc (m : ℚ) * 2 ^ e < 2 ^ (53 : ℤ) * 2 ^ e := mul_lt_mul_of_pos_right hm' (two_zpow_pos e)
      _ = 2 ^ (53 + e) := (two_zpow_add _ _).symm
      _ ≤ 2 ^ (1024 : ℤ) := two_zpow_le (by linarith [hcanonical.high])
  | infinity s => exact h.elim
  | notANumber => exact h.elim

/-! ### Operations on doubles -/

section Operations
variable {x y : Float} {a b : ℚ}

lemma HasValue.add (hx : HasValue x a) (hy : HasValue y b)
    (hbound : |nearest (a + b)| < 2 ^ (1024 : ℤ)) :
    HasValue (x + y) (nearest (a + b)) := hasValue_pack (Denotes.add hx hy hbound)

lemma HasValue.sub (hx : HasValue x a) (hy : HasValue y b)
    (hbound : |nearest (a - b)| < 2 ^ (1024 : ℤ)) :
    HasValue (x - y) (nearest (a - b)) := hasValue_pack (Denotes.sub hx hy hbound)

lemma HasValue.mul (hx : HasValue x a) (hy : HasValue y b)
    (hbound : |nearest (a * b)| < 2 ^ (1024 : ℤ)) :
    HasValue (x * y) (nearest (a * b)) := hasValue_pack (Denotes.mul hx hy hbound)

lemma HasValue.div (hx : HasValue x a) (hy : HasValue y b) (hb : b ≠ 0)
    (hbound : |nearest (a / b)| < 2 ^ (1024 : ℤ)) : HasValue (x / y) (nearest (a / b)) :=
  hasValue_pack (Denotes.div hx hy hb hbound)

/-- A division by one or more does not overflow. -/
lemma HasValue.div_of_one_le (hx : HasValue x a) (hy : HasValue y b) (hb : 1 ≤ b) :
    HasValue (x / y) (nearest (a / b)) := by
  have hpos : 0 < b := zero_lt_one.trans_le hb
  have hle : |a / b| ≤ |a| := by
    rw [abs_div, abs_of_pos hpos]
    exact div_le_self (abs_nonneg a) hb
  exact hx.div hy hpos.ne' ((abs_nearest_le hx.abs.representable hle).trans_lt (Denotes.abs_lt hx))

end Operations

end SkyResolver.Number
