import SkyResolver.Proofs.Number.Signs
import SkyResolver.Number.Shortest

/-! The shortest digits of a double read back as the double. What is found on a grid of decimal
numbers lies in the neighbourhood of the double, all of which is rounded to it, and one of the grids
that are searched is so fine that it cannot miss the neighbourhood. -/
namespace SkyResolver.Number

/-! ### Neighbourhoods -/

/-- A number lies in a neighbourhood. -/
def Neighbourhood.Holds (h : Neighbourhood) (q : ℚ) : Prop :=
  if h.closed then h.low * 2 ^ h.exponent ≤ q ∧ q ≤ h.high * 2 ^ h.exponent
  else h.low * 2 ^ h.exponent < q ∧ q < h.high * 2 ^ h.exponent

section NearestWhole
variable {q : ℚ} {n : ℤ}

lemma nearestWhole_eq_of_abs_lt (h : |(n : ℚ) - q| < 1 / 2) : nearestWhole q = n := by
  have hdistance : |(nearestWhole q : ℚ) - n| < 1 := by
    have := abs_sub_le (nearestWhole q : ℚ) q n
    rw [abs_sub_comm q] at this
    linarith [abs_nearestWhole_sub_le q]
  have : |nearestWhole q - n| < 1 := by exact_mod_cast hdistance
  rw [Int.abs_lt_one_iff] at this
  omega

/-- Halves are rounded to an even number from both sides. -/
lemma nearestWhole_eq_of_even (hn : Even n) (h : |(n : ℚ) - q| ≤ 1 / 2) : nearestWhole q = n := by
  obtain hlt | heq := h.lt_or_eq
  · exact nearestWhole_eq_of_abs_lt hlt
  obtain ⟨k, rfl⟩ := hn
  obtain hq | hq := (abs_eq (by norm_num)).1 heq
  · have hfloor : ⌊q⌋ = k + k - 1 := by
      rw [Int.floor_eq_iff]
      push_cast at hq ⊢
      constructor <;> linarith
    rw [nearestWhole_of_eq, hfloor]
    · omega
    · rw [Int.fract, hfloor]
      push_cast at hq ⊢
      linarith
  · have hfloor : ⌊q⌋ = k + k := by
      rw [Int.floor_eq_iff]
      push_cast at hq ⊢
      constructor <;> linarith
    rw [nearestWhole_of_eq, hfloor]
    · omega
    · rw [Int.fract, hfloor]
      push_cast at hq ⊢
      linarith

end NearestWhole

/-- The numbers between the middles of neighbouring doubles, in units of the last place. The middles
themselves belong to doubles with even mantissas. -/
lemma nearestWhole_eq_of_middles {m : ℕ} {q : ℚ} (hlow : (m - 1 / 2 : ℚ) ≤ q)
    (hhigh : q ≤ m + 1 / 2) (hodd : m % 2 ≠ 0 → (m - 1 / 2 : ℚ) < q ∧ q < m + 1 / 2) :
    nearestWhole q = m := by
  obtain heven | hodd' := Nat.mod_two_eq_zero_or_one m
  · refine nearestWhole_eq_of_even ?_ ?_
    · exact_mod_cast Nat.even_iff.2 heven
    · rw [abs_le, Int.cast_natCast]
      constructor <;> linarith
  · obtain ⟨hlow, hhigh⟩ := hodd (by omega)
    refine nearestWhole_eq_of_abs_lt ?_
    rw [abs_lt, Int.cast_natCast]
    constructor <;> linarith

section Neighbourhood
variable {b : Binary} {q : ℚ}

/-- The mantissa of a power of two that has twice as many doubles below it. -/
def Binary.AtPower (b : Binary) : Prop := b.mantissa = 2 ^ 52 ∧ b.exponent ≠ -1074

instance (b : Binary) : Decidable b.AtPower := inferInstanceAs (Decidable (_ ∧ _))

lemma Neighbourhood.of_eq (b : Binary) : Neighbourhood.of b =
    { low := 4 * b.mantissa - (if b.AtPower then 1 else 2), middle := 4 * b.mantissa,
      high := 4 * b.mantissa + 2, closed := b.mantissa % 2 == 0, exponent := b.exponent - 2 } := by
  have hcheck : (b.mantissa == twoTo 52 && b.exponent != -1074) = decide b.AtPower := by
    rw [Bool.eq_iff_iff, Bool.and_eq_true, beq_iff_eq, bne_iff_ne, decide_eq_true_eq]
    rfl
  simp only [Neighbourhood.of, hcheck, decide_eq_true_eq]

/-- How far the neighbourhood of a double reaches down, in units of the last place. -/
def Binary.reach (b : Binary) : ℚ := if b.AtPower then 1 / 4 else 1 / 2

lemma Neighbourhood.cast_low (hm : 0 < b.mantissa) :
    ((Neighbourhood.of b).low : ℚ) = 4 * (b.mantissa - b.reach) := by
  have hle : (if b.AtPower then 1 else 2) ≤ 4 * b.mantissa := by split <;> omega
  rw [Neighbourhood.of_eq, Nat.cast_sub hle, Binary.reach]
  split <;> (push_cast; ring)

lemma Neighbourhood.cast_high (b : Binary) :
    ((Neighbourhood.of b).high : ℚ) = 4 * (b.mantissa + 1 / 2) := by
  rw [Neighbourhood.of_eq]
  push_cast
  ring

lemma four_mul_two_zpow (k : ℚ) (e : ℤ) : 4 * k * 2 ^ (e - 2) = k * 2 ^ e := by
  rw [zpow_sub₀ (by norm_num)]
  norm_num
  ring

lemma Neighbourhood.holds_of_iff (hm : 0 < b.mantissa) : (Neighbourhood.of b).Holds q ↔
    if b.mantissa % 2 = 0 then b.mantissa - b.reach ≤ q / 2 ^ b.exponent ∧
      q / 2 ^ b.exponent ≤ b.mantissa + 1 / 2
    else b.mantissa - b.reach < q / 2 ^ b.exponent ∧ q / 2 ^ b.exponent < b.mantissa + 1 / 2 := by
  have hpos := two_zpow_pos b.exponent
  have hexponent : (Neighbourhood.of b).exponent = b.exponent - 2 := rfl
  have hclosed : ((Neighbourhood.of b).closed = true) = (b.mantissa % 2 = 0) := propext beq_iff_eq
  simp only [Neighbourhood.Holds, Neighbourhood.cast_low hm, Neighbourhood.cast_high,
    hexponent, hclosed, four_mul_two_zpow, le_div_iff₀ hpos, div_le_iff₀ hpos, lt_div_iff₀ hpos,
    div_lt_iff₀ hpos]

lemma unitExponent_eq_of_div {e : ℤ} (he : -1074 ≤ e) (hlow : 0 ≤ q / 2 ^ e)
    (hhigh : q / 2 ^ e < 2 ^ 53) (hnormal : 2 ^ 52 ≤ q / 2 ^ e ∨ e = -1074) :
    unitExponent q = e := by
  have hpos := two_zpow_pos e
  have hq : |q| = q / 2 ^ e * 2 ^ e := by
    rw [div_mul_cancel₀ _ hpos.ne', abs_of_nonneg]
    rwa [le_div_iff₀ hpos, zero_mul] at hlow
  refine unitExponent_eq he ?_ (hnormal.imp_left fun hnormal => ?_)
  · rw [hq, two_zpow_add, mul_comm]
    exact mul_lt_mul_of_pos_left (by exact_mod_cast hhigh) hpos
  · rw [hq, two_zpow_add, mul_comm]
    exact mul_le_mul_of_nonneg_right (by exact_mod_cast hnormal) hpos.le

lemma nearest_eq_of_nearestWhole {e n : ℤ} (hunit : unitExponent q = e)
    (h : nearestWhole (q / 2 ^ e) = n) :
    nearest q = n * 2 ^ e := by
  rw [nearest, hunit, h]

/-- Below a power of two the doubles are twice as dense. -/
lemma nearest_below_power {e : ℤ} (he : -1074 < e) (hlow : 2 ^ 52 - 1 / 4 ≤ q / 2 ^ e)
    (hhigh : q / 2 ^ e < 2 ^ 52) :
    nearest q = 2 ^ 52 * 2 ^ e := by
  have hhalf : (2 : ℚ) ^ e = 2 * 2 ^ (e - 1) := by
    rw [zpow_sub_one₀ (by norm_num)]
    ring
  have hq : q / 2 ^ (e - 1) = 2 * (q / 2 ^ e) := by
    rw [hhalf]
    field_simp
  have hunit : unitExponent q = e - 1 := by
    refine unitExponent_eq_of_div (by omega) ?_ ?_ (.inl ?_)
    · rw [hq]; linarith
    · rw [hq]; linarith
    · rw [hq]; linarith
  have hwhole : nearestWhole (q / 2 ^ (e - 1)) = 2 ^ 53 := by
    refine nearestWhole_eq_of_even (by decide) ?_
    rw [hq, abs_le]
    push_cast
    constructor <;> linarith
  rw [nearest_eq_of_nearestWhole hunit hwhole, hhalf]
  push_cast
  ring

lemma nearest_above_power {e : ℤ} (he : -1074 ≤ e) (hlow : 2 ^ 52 ≤ q / 2 ^ e)
    (hhigh : q / 2 ^ e ≤ 2 ^ 52 + 1 / 2) :
    nearest q = 2 ^ 52 * 2 ^ e := by
  have hunit : unitExponent q = e :=
    unitExponent_eq_of_div he (by linarith) (by linarith) (.inl hlow)
  have hwhole : nearestWhole (q / 2 ^ e) = 2 ^ 52 := by
    refine nearestWhole_eq_of_even (by decide) ?_
    rw [abs_le]
    push_cast
    constructor <;> linarith
  rw [nearest_eq_of_nearestWhole hunit hwhole]
  push_cast
  rfl

lemma nearest_of_holds_of_atPower (hpower : b.AtPower) (hlow : -1074 ≤ b.exponent)
    (h : (Neighbourhood.of b).Holds q) : nearest q = b.mantissa * 2 ^ b.exponent := by
  have hmantissa := hpower.1
  have hexponent := hpower.2
  rw [Neighbourhood.holds_of_iff (by omega), hmantissa, if_pos (by norm_num), Binary.reach,
    if_pos hpower] at h
  rw [hmantissa]
  push_cast at h ⊢
  obtain hbelow | habove := lt_or_ge (q / 2 ^ b.exponent) (2 ^ 52)
  · exact nearest_below_power (by omega) h.1 hbelow
  · exact nearest_above_power hlow habove h.2

lemma nearest_of_holds_of_not_atPower (hcanonical : Canonical b.mantissa b.exponent)
    (hm : 0 < b.mantissa) (hpower : ¬b.AtPower) (h : (Neighbourhood.of b).Holds q) :
    nearest q = b.mantissa * 2 ^ b.exponent := by
  have hreach : b.reach = 1 / 2 := if_neg hpower
  rw [Neighbourhood.holds_of_iff hm, hreach] at h
  have hmiddles : (b.mantissa : ℚ) - 1 / 2 ≤ q / 2 ^ b.exponent ∧
      q / 2 ^ b.exponent ≤ b.mantissa + 1 / 2 := by
    split_ifs at h
    · exact h
    · exact ⟨h.1.le, h.2.le⟩
  have hsmall : (b.mantissa : ℚ) + 1 ≤ 2 ^ 53 := by exact_mod_cast hcanonical.small
  have hone : (1 : ℚ) ≤ b.mantissa := by exact_mod_cast hm
  have hunit : unitExponent q = b.exponent := by
    refine unitExponent_eq_of_div hcanonical.low (by linarith) (by linarith) ?_
    refine or_iff_not_imp_right.2 fun hexponent => ?_
    have hnormal : 2 ^ 52 < b.mantissa :=
      lt_of_le_of_ne (hcanonical.normal.resolve_right hexponent) fun heq => hpower
        ⟨heq.symm, hexponent⟩
    have hnormal : (2 ^ 52 : ℚ) + 1 ≤ b.mantissa := by exact_mod_cast hnormal
    linarith
  exact nearest_eq_of_nearestWhole hunit
    (nearestWhole_eq_of_middles hmiddles.1 hmiddles.2 fun hodd => by rwa [if_neg hodd] at h)

/-- All numbers in the neighbourhood of a double are rounded to it. -/
lemma nearest_of_holds (hcanonical : Canonical b.mantissa b.exponent) (hm : 0 < b.mantissa)
    (h : (Neighbourhood.of b).Holds q) : nearest q = b.mantissa * 2 ^ b.exponent := by
  by_cases hpower : b.AtPower
  · exact nearest_of_holds_of_atPower hpower hcanonical.low h
  · exact nearest_of_holds_of_not_atPower hcanonical hm hpower h

end Neighbourhood

/-! ### Grids -/

section Grids
variable {h : Neighbourhood} {tie : Tie} {place : ℤ} {n : ℕ}

/-- What the units of a grid and of a neighbourhood are multiplied with, so that both are whole. -/
def commonDenominator (e place : ℤ) : ℚ := 2 ^ (-e).toNat * 10 ^ (-place).toNat

lemma commonDenominator_pos (e place : ℤ) : 0 < commonDenominator e place := by
  unfold commonDenominator
  positivity

lemma ten_zpow_mul_toNat (e : ℤ) : (10 : ℚ) ^ e * 10 ^ (-e).toNat = 10 ^ e.toNat := by
  rw [← zpow_natCast, ← zpow_natCast, ← zpow_add₀ (by norm_num)]
  congr 1
  omega

lemma cast_tenTo (k : ℕ) : ((tenTo k : ℕ) : ℚ) = 10 ^ k := by
  rw [show tenTo k = 10 ^ k from rfl, Nat.cast_pow, Nat.cast_ofNat]

/-- The unit of a neighbourhood on the scale of a grid. -/
def Neighbourhood.scale (h : Neighbourhood) (place : ℤ) : ℕ :=
  twoTo h.exponent.toNat * tenTo (-place).toNat

/-- The unit of a grid on the scale of a neighbourhood. -/
def Neighbourhood.gridUnit (h : Neighbourhood) (place : ℤ) : ℕ :=
  twoTo (-h.exponent).toNat * tenTo place.toNat

lemma Neighbourhood.cast_scale (h : Neighbourhood) (place : ℤ) :
    (h.scale place : ℚ) = 2 ^ h.exponent * commonDenominator h.exponent place := by
  rw [Neighbourhood.scale, Nat.cast_mul, cast_twoTo, cast_tenTo, ← two_zpow_mul_toNat,
    commonDenominator]
  ring

lemma Neighbourhood.cast_gridUnit (h : Neighbourhood) (place : ℤ) :
    (h.gridUnit place : ℚ) = 10 ^ place * commonDenominator h.exponent place := by
  rw [Neighbourhood.gridUnit, Nat.cast_mul, cast_twoTo, cast_tenTo, ← ten_zpow_mul_toNat,
    commonDenominator]
  ring

lemma Neighbourhood.gridUnit_pos (h : Neighbourhood) (place : ℤ) : 0 < h.gridUnit place :=
  Nat.mul_pos (twoTo_pos _) (tenTo_pos _)

/-- A multiple of the unit of a grid, other than zero, lies in the neighbourhood. -/
def Neighbourhood.onGrid (h : Neighbourhood) (place : ℤ) (n : ℕ) : Bool :=
  n != 0 &&
    if h.closed then h.low * h.scale place ≤ n * h.gridUnit place && n * h.gridUnit place ≤
      h.high * h.scale place
    else h.low * h.scale place < n * h.gridUnit place && n * h.gridUnit place <
    h.high * h.scale place

lemma cast_mul_le_cast_mul {k n s u : ℕ} {x y d : ℚ} (hs : (s : ℚ) = x * d) (hu : (u : ℚ) = y * d)
    (hd : 0 < d) :
    k * s ≤ n * u ↔ k * x ≤ n * y := by
  rw [← Nat.cast_le (α := ℚ), Nat.cast_mul, Nat.cast_mul, hs, hu, ← mul_assoc, ← mul_assoc,
    mul_le_mul_iff_left₀ hd]

lemma cast_mul_lt_cast_mul {k n s u : ℕ} {x y d : ℚ} (hs : (s : ℚ) = x * d) (hu : (u : ℚ) = y * d)
    (hd : 0 < d) :
    k * s < n * u ↔ k * x < n * y := by
  rw [← Nat.cast_lt (α := ℚ), Nat.cast_mul, Nat.cast_mul, hs, hu, ← mul_assoc, ← mul_assoc,
    mul_lt_mul_iff_left₀ hd]

lemma Neighbourhood.onGrid_iff : h.onGrid place n = true ↔ n ≠ 0 ∧ h.Holds (n * 10 ^ place) := by
  have hs := h.cast_scale place
  have hu := h.cast_gridUnit place
  have hd := commonDenominator_pos h.exponent place
  rw [Neighbourhood.onGrid, Neighbourhood.Holds, Bool.and_eq_true, bne_iff_ne]
  refine and_congr_right fun _ => ?_
  split
  · rw [Bool.and_eq_true, decide_eq_true_eq, decide_eq_true_eq, cast_mul_le_cast_mul hs hu hd,
      cast_mul_le_cast_mul hu hs hd]
  · rw [Bool.and_eq_true, decide_eq_true_eq, decide_eq_true_eq, cast_mul_lt_cast_mul hs hu hd,
      cast_mul_lt_cast_mul hu hs hd]

/-- The multiple of the unit of a grid below the middle of a neighbourhood, or at it. -/
def Neighbourhood.gridBelow (h : Neighbourhood) (place : ℤ) : ℕ :=
  h.middle * h.scale place / h.gridUnit place

/-- Only the two multiples around the middle are looked at, and one of them is found if either can
be. -/
lemma Neighbourhood.onGrid?_cases (h : Neighbourhood) (tie : Tie) (place : ℤ) :
    (∃ n, h.onGrid? tie place = some n ∧ h.onGrid place n = true) ∨
      h.onGrid? tie place = none ∧ h.onGrid place (h.gridBelow place + 1) = false := by
  simp only [Neighbourhood.onGrid?]
  split
  · rename_i habove
    exact .inr ⟨rfl, habove⟩
  · rename_i hbelow _
    exact .inl ⟨_, rfl, hbelow⟩
  · rename_i _ habove
    exact .inl ⟨_, rfl, habove⟩
  · rename_i hbelow habove
    refine .inl ?_
    cases tie with
    | even =>
      dsimp only
      split_ifs
      · exact ⟨_, rfl, hbelow⟩
      · exact ⟨_, rfl, habove⟩
      · exact ⟨_, rfl, hbelow⟩
      · exact ⟨_, rfl, habove⟩
    | up =>
      dsimp only
      split_ifs
      · exact ⟨_, rfl, hbelow⟩
      · exact ⟨_, rfl, habove⟩
      · exact ⟨_, rfl, habove⟩

lemma Neighbourhood.holds_of_onGrid? (hn : h.onGrid? tie place = some n) :
    n ≠ 0 ∧ h.Holds (n * 10 ^ place) := by
  obtain ⟨n', hn', hgrid⟩ | ⟨hnone, -⟩ := h.onGrid?_cases tie place
  · rw [hn] at hn'
    cases hn'
    exact Neighbourhood.onGrid_iff.1 hgrid
  · rw [hn] at hnone
    cases hnone

/-- A grid that is finer than the upper half of a neighbourhood meets it. -/
lemma Neighbourhood.isSome_onGrid? (tie : Tie) (hlow : h.low < h.middle)
    (hfine : (10 : ℚ) ^ place < (h.high - h.middle) * 2 ^ h.exponent) :
    (h.onGrid? tie place).isSome = true := by
  obtain ⟨n, hn, -⟩ | ⟨-, habove⟩ := h.onGrid?_cases tie place
  · rw [hn]
    rfl
  · exfalso
    have hunit := h.gridUnit_pos place
    have hd := commonDenominator_pos h.exponent place
    have hbelow : h.gridBelow place * h.gridUnit place ≤ h.middle * h.scale place :=
      Nat.div_mul_le_self _ _
    have hpassed : h.middle * h.scale place < (h.gridBelow place + 1) * h.gridUnit place := by
      rw [Nat.mul_comm (h.gridBelow place + 1)]
      exact Nat.lt_mul_div_succ _ hunit
    rw [cast_mul_le_cast_mul (h.cast_gridUnit place) (h.cast_scale place) hd] at hbelow
    rw [cast_mul_lt_cast_mul (h.cast_scale place) (h.cast_gridUnit place) hd] at hpassed
    have hlow : (h.low : ℚ) * 2 ^ h.exponent < h.middle * 2 ^ h.exponent :=
      mul_lt_mul_of_pos_right (by exact_mod_cast hlow) (two_zpow_pos _)
    have hinside : h.low * 2 ^ h.exponent < ((h.gridBelow place + 1 : ℕ) : ℚ) * 10 ^ place ∧
        ((h.gridBelow place + 1 : ℕ) : ℚ) * 10 ^ place < h.high * 2 ^ h.exponent := by
      push_cast at hpassed ⊢
      constructor <;> linarith
    rw [Bool.eq_false_iff, Ne, Neighbourhood.onGrid_iff] at habove
    refine habove ⟨Nat.succ_ne_zero _, ?_⟩
    unfold Neighbourhood.Holds
    split
    · exact ⟨hinside.1.le, hinside.2.le⟩
    · exact hinside

/-- A search that passes a grid with a hit ends at a grid with one. -/
lemma Neighbourhood.search_spec {count skipped : ℕ} (place : ℤ) (hskipped : skipped < count)
    (hit : (h.onGrid? tie (place - skipped)).isSome = true) :
    h.onGrid? tie (h.search tie count place).exponent = some (h.search tie count place).digits := by
  induction count generalizing place skipped with
  | zero => omega
  | succ count ih =>
    rw [Neighbourhood.search]
    cases hplace : h.onGrid? tie place with
    | some n => exact hplace
    | none =>
      cases skipped with
      | zero =>
        rw [Nat.cast_zero, sub_zero, hplace] at hit
        cases hit
      | succ skipped =>
        refine ih (place - 1) (Nat.lt_of_succ_lt_succ hskipped) ?_
        rwa [show place - 1 - (skipped : ℤ) = place - (skipped + 1 : ℕ) by omega]

end Grids

/-! ### The shortest digits -/

section Shortest
variable {b : Binary} {tie : Tie}

lemma ten_zpow_le_two_zpow {i j : ℤ} {k l : ℕ} (hk : k ≠ 0)
    (hbase : ((10 : ℚ) ^ k) ^ i ≤ (2 ^ l) ^ i) (h : l * i ≤ k * j) : (10 : ℚ) ^ i ≤ 2 ^ j := by
  refine le_of_pow_le_pow_left₀ hk (two_zpow_pos j).le ?_
  calc ((10 : ℚ) ^ i) ^ k = (10 ^ k) ^ i := by rw [← zpow_natCast, ← zpow_natCast, zpow_comm]
    _ ≤ (2 ^ l) ^ i := hbase
    _ = 2 ^ (l * i) := by rw [← zpow_natCast, zpow_mul]
    _ ≤ 2 ^ (k * j) := two_zpow_le h
    _ = (2 ^ j) ^ k := by rw [mul_comm, zpow_mul, zpow_natCast]

/-- The estimate of the leading digit from the leading bit is less than ten bits too large. -/
lemma ten_zpow_estimate_le {n : ℤ} (hlow : -1074 ≤ n) (hhigh : n ≤ 1023) :
    (10 : ℚ) ^ (n * 30103 / 100000) ≤ 2 ^ (n + 10) := by
  obtain hnonneg | hneg := le_or_gt 0 (n * 30103 / 100000)
  · exact ten_zpow_le_two_zpow (k := 3) (l := 10) (by norm_num)
      (zpow_le_zpow_left₀ hnonneg (by norm_num) (by norm_num)) (by push_cast; omega)
  · refine ten_zpow_le_two_zpow (k := 28) (l := 93) (by norm_num) ?_ (by push_cast; omega)
    have hpower : ((2 : ℚ) ^ 93) ^ (-(n * 30103 / 100000)) ≤ (10 ^ 28) ^ (-(n * 30103 / 100000)) :=
      zpow_le_zpow_left₀ (by omega) (by norm_num) (by norm_num)
    rw [← neg_neg (n * 30103 / 100000), zpow_neg, zpow_neg _ (-_)]
    exact inv_anti₀ (zpow_pos (by norm_num) _) hpower

lemma log2_lt {m : ℕ} (hm : m < 2 ^ 53) : m.log2 ≤ 52 := by
  obtain rfl | hne := eq_or_ne m 0
  · decide
  · have := (Nat.log2_lt hne).2 hm
    omega

/-- The last grid of the search is finer than the upper half of the neighbourhood. -/
lemma ten_zpow_last_lt (hcanonical : Canonical b.mantissa b.exponent) :
    (10 : ℚ) ^ (((b.mantissa.log2 : ℤ) + b.exponent) * 30103 / 100000 + 2 - (21 : ℕ)) <
      2 ^ (b.exponent - 1) := by
  have hlog := log2_lt hcanonical.small
  have hlow := hcanonical.low
  have hhigh := hcanonical.high
  have hestimate := ten_zpow_estimate_le (n := (b.mantissa.log2 : ℤ) + b.exponent)
    (by omega) (by omega)
  generalize ((b.mantissa.log2 : ℤ) + b.exponent) * 30103 / 100000 = leading at *
  calc (10 : ℚ) ^ (leading + 2 - (21 : ℕ)) = 10 ^ leading * 10 ^ (-19 : ℤ) := by
        rw [← zpow_add₀ (by norm_num)]
        congr 1
        push_cast
        ring
    _ < 10 ^ leading * 2 ^ (-63 : ℤ) :=
    mul_lt_mul_of_pos_left (by norm_num) (zpow_pos (by norm_num) _)
    _ ≤ 2 ^ ((b.mantissa.log2 : ℤ) + b.exponent + 10) * 2 ^ (-63 : ℤ) :=
        mul_le_mul_of_nonneg_right hestimate (two_zpow_pos _).le
    _ ≤ 2 ^ (b.exponent - 1) := by
        rw [← two_zpow_add]
        exact two_zpow_le (by omega)

/-- The shortest digits of a positive double are not zero, and the number that they stand for is
rounded to it. -/
theorem nearest_shortest (tie : Tie) (hcanonical : Canonical b.mantissa b.exponent)
    (hm : 0 < b.mantissa) :
    (shortest tie b).digits ≠ 0 ∧
      nearest ((shortest tie b).digits * 10 ^ (shortest tie b).exponent) =
        b.mantissa * 2 ^ b.exponent := by
  have hlow : (Neighbourhood.of b).low < (Neighbourhood.of b).middle := by
    rw [Neighbourhood.of_eq]
    dsimp only
    split <;> omega
  have hwidth : ((Neighbourhood.of b).high - (Neighbourhood.of b).middle : ℚ) * 2 ^
      (Neighbourhood.of b).exponent =
      2 ^ (b.exponent - 1) := by
    rw [Neighbourhood.of_eq]
    push_cast
    rw [show b.exponent - 1 = 1 + (b.exponent - 2) by ring, two_zpow_add]
    norm_num
  have hlast :=
    Neighbourhood.isSome_onGrid? tie hlow ((ten_zpow_last_lt hcanonical).trans_eq hwidth.symm)
  have hit : (Neighbourhood.of b).onGrid? tie (shortest tie b).exponent =
      some (shortest tie b).digits :=
    Neighbourhood.search_spec _ (by norm_num) hlast
  obtain ⟨hne, hholds⟩ := Neighbourhood.holds_of_onGrid? hit
  exact ⟨hne, nearest_of_holds hcanonical hm hholds⟩

end Shortest
end SkyResolver.Number
