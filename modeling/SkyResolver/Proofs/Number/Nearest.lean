import Mathlib

/-! Rounding of rational numbers to the values of doubles, halves to even mantissas. Large numbers
are not cut off here: exponents have a lower bound only. Rounding keeps the order of numbers and
leaves the values of doubles as they are, and it moves a number by at most half of the distance of
the doubles around it. -/
namespace SkyResolver.Number

/-! ### Whole numbers -/

/-- The nearest whole number; halves go to the even one. -/
def nearestWhole (q : ℚ) : ℤ :=
  match compare (Int.fract q) (1 / 2) with
  | .lt => ⌊q⌋
  | .eq => ⌊q⌋ + ⌊q⌋ % 2
  | .gt => ⌊q⌋ + 1

section NearestWhole
variable {q q' : ℚ}

lemma nearestWhole_of_lt (h : Int.fract q < 1 / 2) : nearestWhole q = ⌊q⌋ := by
  rw [nearestWhole, compare_lt_iff_lt.2 h]

lemma nearestWhole_of_eq (h : Int.fract q = 1 / 2) : nearestWhole q = ⌊q⌋ + ⌊q⌋ % 2 := by
  rw [nearestWhole, compare_eq_iff_eq.2 h]

lemma nearestWhole_of_gt (h : 1 / 2 < Int.fract q) : nearestWhole q = ⌊q⌋ + 1 := by
  rw [nearestWhole, compare_gt_iff_gt.2 h]

lemma floor_le_nearestWhole (q : ℚ) : ⌊q⌋ ≤ nearestWhole q := by
  unfold nearestWhole
  split <;> omega

lemma nearestWhole_le (q : ℚ) : nearestWhole q ≤ ⌊q⌋ + 1 := by
  unfold nearestWhole
  split <;> omega

@[simp] lemma nearestWhole_intCast (n : ℤ) : nearestWhole n = n := by
  rw [nearestWhole_of_lt (by norm_num), Int.floor_intCast]

lemma nearestWhole_mono (h : q ≤ q') : nearestWhole q ≤ nearestWhole q' := by
  obtain hlt | heq := (Int.floor_mono h).lt_or_eq
  · exact (nearestWhole_le q).trans (Int.add_one_le_iff.2 hlt |>.trans (floor_le_nearestWhole q'))
  · have hfract : Int.fract q ≤ Int.fract q' := by
      simp only [Int.fract, heq]
      linarith
    obtain hq | hq | hq := lt_trichotomy (Int.fract q) (1 / 2)
    · rw [nearestWhole_of_lt hq, heq]
      exact floor_le_nearestWhole q'
    · rw [nearestWhole_of_eq hq, heq]
      obtain hq' | hq' := (hq.symm.trans_le hfract).eq_or_lt
      · rw [nearestWhole_of_eq hq'.symm]
      · rw [nearestWhole_of_gt hq']
        omega
    · rw [nearestWhole_of_gt hq, heq, nearestWhole_of_gt (hq.trans_le hfract)]

lemma nearestWhole_neg (q : ℚ) : nearestWhole (-q) = -nearestWhole q := by
  by_cases hq : Int.fract q = 0
  · obtain ⟨n, rfl⟩ : ∃ n : ℤ, q = n := ⟨⌊q⌋, by rw [← Int.self_sub_fract q, hq]; simp⟩
    rw [← Int.cast_neg, nearestWhole_intCast, nearestWhole_intCast]
  · have hfract : Int.fract (-q) = 1 - Int.fract q := Int.fract_neg hq
    have hfloor : ⌊-q⌋ = -⌊q⌋ - 1 := by
      rw [Int.floor_neg, Int.ceil_eq_floor_add_one_iff_notMem _ |>.2]
      · ring
      · rintro ⟨n, hn⟩
        exact hq (by rw [← hn, Int.fract_intCast])
    obtain hlt | heq | hgt := lt_trichotomy (Int.fract q) (1 / 2)
    · rw [nearestWhole_of_lt hlt, nearestWhole_of_gt (by rw [hfract]; linarith), hfloor]
      ring
    · rw [nearestWhole_of_eq heq, nearestWhole_of_eq (by rw [hfract, heq]; norm_num), hfloor]
      omega
    · rw [nearestWhole_of_gt hgt, nearestWhole_of_lt (by rw [hfract]; linarith), hfloor]
      ring

lemma abs_nearestWhole_sub_le (q : ℚ) : |(nearestWhole q : ℚ) - q| ≤ 1 / 2 := by
  have hfract := Int.self_sub_floor q
  have hlow := Int.fract_nonneg q
  have hhigh := Int.fract_lt_one q
  rw [abs_le]
  obtain hlt | heq | hgt := lt_trichotomy (Int.fract q) (1 / 2)
  · rw [nearestWhole_of_lt hlt]
    constructor <;> linarith
  · rw [nearestWhole_of_eq heq]
    obtain heven | hodd := Int.emod_two_eq_zero_or_one ⌊q⌋
    · rw [heven]
      push_cast
      constructor <;> linarith
    · rw [hodd]
      push_cast
      constructor <;> linarith
  · rw [nearestWhole_of_gt hgt]
    push_cast
    constructor <;> linarith

end NearestWhole

/-! ### Doubles -/

/-- The exponent of the last bit of the doubles of the size of a number. -/
def unitExponent (q : ℚ) : ℤ := if q = 0 then -1074 else max (Int.log 2 |q| - 52) (-1074)

/-- The values of doubles of any size. -/
def Representable (q : ℚ) : Prop := ∃ m e : ℤ, |m| < 2 ^ 53 ∧ -1074 ≤ e ∧ q = m * 2 ^ e

/-- The nearest value of a double; halves go to even mantissas. -/
def nearest (q : ℚ) : ℚ := nearestWhole (q / 2 ^ unitExponent q) * 2 ^ unitExponent q

lemma two_zpow_pos (e : ℤ) : (0 : ℚ) < 2 ^ e := zpow_pos (by norm_num) e

lemma two_zpow_le {e e' : ℤ} (h : e ≤ e') : (2 : ℚ) ^ e ≤ 2 ^ e' :=
  zpow_le_zpow_right₀ (by norm_num) h

lemma two_zpow_add (e e' : ℤ) : (2 : ℚ) ^ (e + e') = 2 ^ e * 2 ^ e' := zpow_add₀ (by norm_num) e e'

lemma two_zpow_eq_mul {e e' : ℤ} (h : e ≤ e') : (2 : ℚ) ^ e' = 2 ^ (e' - e).toNat * 2 ^ e := by
  rw [← zpow_natCast, Int.toNat_of_nonneg (by omega), ← two_zpow_add, sub_add_cancel]

lemma two_zpow_mul_toNat (e : ℤ) : (2 : ℚ) ^ e * 2 ^ (-e).toNat = 2 ^ e.toNat := by
  rw [← zpow_natCast, ← zpow_natCast, ← two_zpow_add]
  congr 1
  omega

section Units
variable {q : ℚ}

lemma unitExponent_of_ne_zero (h : q ≠ 0) : unitExponent q = max (Int.log 2 |q| - 52) (-1074) :=
  if_neg h

lemma unitExponent_neg (q : ℚ) : unitExponent (-q) = unitExponent q := by
  simp only [unitExponent, neg_eq_zero, abs_neg]

lemma le_unitExponent (q : ℚ) : -1074 ≤ unitExponent q := by
  unfold unitExponent
  split
  · exact le_rfl
  · exact le_max_right _ _

lemma abs_lt_of_unitExponent (q : ℚ) : |q| < 2 ^ (unitExponent q + 53) := by
  obtain rfl | hne := eq_or_ne q 0
  · rw [abs_zero]
    exact two_zpow_pos _
  · have hlog : Int.log 2 |q| + 1 ≤ unitExponent q + 53 := by
      rw [unitExponent_of_ne_zero hne]
      omega
    have := Int.lt_zpow_succ_log_self (b := 2) (by norm_num) |q|
    rw [Nat.cast_ofNat] at this
    exact this.trans_le (two_zpow_le hlog)

lemma unitExponent_le {e : ℤ} (he : -1074 ≤ e) (hq : |q| < 2 ^ (e + 53)) : unitExponent q ≤ e := by
  obtain rfl | hne := eq_or_ne q 0
  · rwa [unitExponent, if_pos rfl]
  · rw [unitExponent_of_ne_zero hne]
    have := (Int.lt_zpow_iff_log_lt (b := 2) (x := e + 53) (by norm_num) (abs_pos.2 hne)).1
      (by simpa using hq)
    omega

lemma le_abs_of_unitExponent (h : -1074 < unitExponent q) : 2 ^ (unitExponent q + 52) ≤ |q| := by
  have hne : q ≠ 0 := by
    rintro rfl
    simp [unitExponent] at h
  have hlog : unitExponent q + 52 = Int.log 2 |q| := by
    rw [unitExponent_of_ne_zero hne] at h ⊢
    omega
  have := Int.zpow_log_le_self (b := 2) (by norm_num) (abs_pos.2 hne)
  rwa [Nat.cast_ofNat, ← hlog] at this

lemma unitExponent_eq {e : ℤ} (he : -1074 ≤ e) (hq : |q| < 2 ^ (e + 53))
    (hq' : 2 ^ (e + 52) ≤ |q| ∨ e = -1074) :
    unitExponent q = e := by
  refine le_antisymm (unitExponent_le he hq) ?_
  obtain hle | rfl := hq'
  · by_contra hlt
    have := (hle.trans_lt (abs_lt_of_unitExponent q)).trans_le
      (two_zpow_le (show unitExponent q + 53 ≤ e + 52 by omega))
    exact this.false
  · exact le_unitExponent q

end Units

section Representable
variable {q : ℚ}

lemma Representable.neg (h : Representable q) : Representable (-q) := by
  obtain ⟨m, e, hm, he, rfl⟩ := h
  exact ⟨-m, e, by rwa [abs_neg], he, by push_cast; ring⟩

lemma representable_of_le {m e : ℤ} (hm : |m| ≤ 2 ^ 53) (he : -1074 ≤ e) :
    Representable (m * 2 ^ e) := by
  obtain hlt | heq := hm.lt_or_eq
  · exact ⟨m, e, hlt, he, rfl⟩
  · obtain rfl | rfl := (abs_eq (by norm_num)).1 heq
    · exact ⟨2 ^ 52, e + 1, by norm_num, by omega, by rw [two_zpow_add]; push_cast; ring⟩
    · exact ⟨-2 ^ 52, e + 1, by norm_num, by omega, by rw [two_zpow_add]; push_cast; ring⟩

lemma representable_intCast {n : ℤ} (h : |n| ≤ 2 ^ 53) : Representable n := by
  simpa using representable_of_le h (show -1074 ≤ 0 by norm_num)

lemma representable_natCast {n : ℕ} (h : n ≤ 2 ^ 53) : Representable n := by
  have := representable_intCast (n := n) (by rw [Nat.abs_cast]; exact_mod_cast h)
  rwa [Int.cast_natCast] at this

/-- The value of a double is a multiple of any unit that is not above its own. -/
lemma Representable.exists_mul (h : Representable q) {e : ℤ} (he : e ≤ unitExponent q) :
    ∃ n : ℤ, q = n * 2 ^ e := by
  obtain ⟨m, e', hm, he', rfl⟩ := h
  have habs : |(m : ℚ) * 2 ^ e'| < 2 ^ (e' + 53) := by
    rw [abs_mul, abs_of_pos (two_zpow_pos e'), two_zpow_add, mul_comm]
    refine mul_lt_mul_of_pos_left ?_ (two_zpow_pos e')
    rw [← Int.cast_abs]
    exact_mod_cast hm
  have hle := he.trans (unitExponent_le he' habs)
  exact ⟨m * 2 ^ (e' - e).toNat, by rw [two_zpow_eq_mul hle]; push_cast; ring⟩

end Representable

section Nearest
variable {q q' d : ℚ}

@[simp] lemma nearest_neg (q : ℚ) : nearest (-q) = -nearest q := by
  rw [nearest, unitExponent_neg, neg_div, nearestWhole_neg, nearest]
  push_cast
  ring

lemma nearest_of_mul {n : ℤ} (h : q = n * 2 ^ unitExponent q) : nearest q = q := by
  rw [nearest, (div_eq_iff (two_zpow_pos _).ne').2 h, nearestWhole_intCast, ← h]

lemma Representable.nearest_eq (h : Representable q) : nearest q = q := by
  obtain ⟨n, hn⟩ := h.exists_mul le_rfl
  exact nearest_of_mul hn

@[simp] lemma nearest_zero : nearest 0 = 0 := by
  have := (representable_intCast (n := 0) (by norm_num)).nearest_eq
  rwa [Int.cast_zero] at this

lemma nearestWhole_mul_mono (e : ℤ) (h : q ≤ q') :
    nearestWhole (q / 2 ^ e) * (2 : ℚ) ^ e ≤ nearestWhole (q' / 2 ^ e) * 2 ^ e := by
  refine mul_le_mul_of_nonneg_right ?_ (two_zpow_pos e).le
  exact_mod_cast nearestWhole_mono (div_le_div_of_nonneg_right h (two_zpow_pos e).le)

/-- A number is not rounded past the value of a double. -/
lemma nearest_le (hd : Representable d) (h : q ≤ d) : nearest q ≤ d := by
  by_cases hunit : unitExponent q ≤ unitExponent d
  · obtain ⟨n, hn⟩ := hd.exists_mul hunit
    refine (nearestWhole_mul_mono (unitExponent q) h).trans_eq ?_
    rw [(div_eq_iff (two_zpow_pos _).ne').2 hn, nearestWhole_intCast, ← hn]
  · -- The doubles around `d` are nearer to each other than those around `q`, so `q` is negative.
    rw [not_le] at hunit
    have hlow := le_abs_of_unitExponent ((le_unitExponent d).trans_lt hunit)
    have hhigh := (abs_lt_of_unitExponent d).trans_le
      (two_zpow_le (show unitExponent d + 53 ≤ unitExponent q + 52 by omega))
    have hq : q ≤ -2 ^ (unitExponent q + 52) := by
      obtain hpos | hneg := le_total 0 q
      · rw [abs_of_nonneg hpos] at hlow
        linarith [le_abs_self d]
      · rw [abs_of_nonpos hneg] at hlow
        linarith
    have hpower : -(2 : ℚ) ^ (unitExponent q + 52) = (-2 ^ 52 : ℤ) * 2 ^ unitExponent q := by
      rw [two_zpow_add]
      push_cast
      ring
    calc nearest q ≤ nearestWhole (-2 ^ (unitExponent q + 52) / 2 ^ unitExponent q) * 2 ^
      unitExponent q :=
          nearestWhole_mul_mono _ hq
      _ = -2 ^ (unitExponent q + 52) := by
        rw [hpower, mul_div_cancel_right₀ _ (two_zpow_pos _).ne', nearestWhole_intCast]
      _ ≤ d := by linarith [neg_abs_le d]

lemma le_nearest (hd : Representable d) (h : d ≤ q) : d ≤ nearest q := by
  have := nearest_le hd.neg (neg_le_neg h)
  rwa [nearest_neg, neg_le_neg_iff] at this

lemma abs_nearest_le (hd : Representable d) (h : |q| ≤ d) : |nearest q| ≤ d := by
  obtain ⟨hlow, hhigh⟩ := abs_le.1 h
  exact abs_le.2 ⟨le_nearest hd.neg hlow, nearest_le hd hhigh⟩

lemma nearest_nonneg (h : 0 ≤ q) : 0 ≤ nearest q := by
  have := le_nearest (d := 0) ⟨0, 0, by norm_num, by norm_num, by norm_num⟩ h
  exact this

lemma nearest_mono_of_unitExponent_lt (h : q ≤ q') (hunit : unitExponent q < unitExponent q') :
    nearest q ≤ nearest q' := by
  -- A power of two lies between the two numbers.
  have hhigh := (abs_lt_of_unitExponent q).trans_le
    (two_zpow_le (show unitExponent q + 53 ≤ unitExponent q' + 52 by omega))
  have hlow := le_abs_of_unitExponent ((le_unitExponent q).trans_lt hunit)
  have hpower : Representable (2 ^ (unitExponent q' + 52)) := by
    have := representable_of_le (m := 1) (by norm_num) (show -1074 ≤ unitExponent q' + 52 by
      have := le_unitExponent q'; omega)
    rwa [Int.cast_one, one_mul] at this
  have hq' : 2 ^ (unitExponent q' + 52) ≤ q' := by
    obtain hpos | hneg := le_total 0 q'
    · rwa [abs_of_nonneg hpos] at hlow
    · rw [abs_of_nonpos hneg] at hlow
      linarith [neg_abs_le q]
  exact (nearest_le hpower ((le_abs_self q).trans hhigh.le)).trans (le_nearest hpower hq')

lemma nearest_mono (h : q ≤ q') : nearest q ≤ nearest q' := by
  obtain hlt | heq | hgt := lt_trichotomy (unitExponent q) (unitExponent q')
  · exact nearest_mono_of_unitExponent_lt h hlt
  · rw [nearest, nearest, ← heq]
    exact nearestWhole_mul_mono _ h
  · have := nearest_mono_of_unitExponent_lt (neg_le_neg h)
      (by rwa [unitExponent_neg, unitExponent_neg])
    rwa [nearest_neg, nearest_neg, neg_le_neg_iff] at this

lemma abs_nearestWhole_le (q : ℚ) : |nearestWhole (q / 2 ^ unitExponent q)| ≤ 2 ^ 53 := by
  have habs : |q / 2 ^ unitExponent q| < 2 ^ 53 := by
    rw [abs_div, abs_of_pos (two_zpow_pos _), div_lt_iff₀ (two_zpow_pos _), mul_comm]
    exact_mod_cast two_zpow_add _ _ ▸ abs_lt_of_unitExponent q
  rw [abs_lt] at habs
  have hlow : ((-2 ^ 53 : ℤ) : ℚ) ≤ q / 2 ^ unitExponent q := by
    push_cast
    linarith
  have hhigh : q / 2 ^ unitExponent q ≤ ((2 ^ 53 : ℤ) : ℚ) := by
    push_cast
    linarith
  exact abs_le.2 ⟨(nearestWhole_intCast _).symm.trans_le (nearestWhole_mono hlow),
    (nearestWhole_mono hhigh).trans_eq (nearestWhole_intCast _)⟩

lemma abs_nearest_sub_le (q : ℚ) : |nearest q - q| ≤ 2 ^ unitExponent q / 2 := by
  have hpos := two_zpow_pos (unitExponent q)
  have hscaled : nearest q - q =
      (nearestWhole (q / 2 ^ unitExponent q) - q / 2 ^ unitExponent q) * 2 ^ unitExponent q := by
    rw [nearest, sub_mul, div_mul_cancel₀ _ hpos.ne']
  rw [hscaled, abs_mul, abs_of_pos hpos]
  calc _ ≤ 1 / 2 * 2 ^ unitExponent q :=
    mul_le_mul_of_nonneg_right (abs_nearestWhole_sub_le _) hpos.le
    _ = _ := by ring

/-- Rounding moves a number below `2 ^ (e + 53)` by at most half of `2 ^ e`. -/
lemma abs_nearest_sub_le_of_lt {e : ℤ} (he : -1074 ≤ e) (hq : 0 ≤ q) (h : q < 2 ^ (e + 53)) :
    |nearest q - q| ≤ 2 ^ e / 2 := by
  have hunit := unitExponent_le he (by rwa [abs_of_nonneg hq])
  exact (abs_nearest_sub_le q).trans (div_le_div_of_nonneg_right (two_zpow_le hunit) (by norm_num))

end Nearest
end SkyResolver.Number
