import SkyResolver.Proofs.Sky.Sexagesimal

/-! Splitting a number into units, minutes and seconds. It is rounded to ten-thousandths of a second
first; the parts are the quotients and the rest of that whole number, although each step of the way
there is rounded too. -/
namespace SkyResolver
open SkyResolver.Number SkyResolver.Text

lemma hasValue_10000 : HasValue 10000.0 10000 := hasValue_of_isNat (n := 10000) (by decide +kernel)

/-! ### Rounding -/

/-- The ten-thousandths of a second in a number of units. -/
def tenThousandths (v : ℚ) : ℕ := ⌊nearest (nearest (v * 3600) * 10000) + 1 / 2⌋₊

section Rounding
variable {x : Float} {v v' : ℚ} {k : ℕ}

lemma tenThousandths_mono (h : v ≤ v') : tenThousandths v ≤ tenThousandths v' := by
  have hproduct : nearest (v * 3600) ≤ nearest (v' * 3600) := nearest_mono (by linarith)
  have : nearest (nearest (v * 3600) * 10000) ≤ nearest (nearest (v' * 3600) * 10000) :=
    nearest_mono (by linarith)
  exact Nat.floor_le_floor (by linarith)

lemma tenThousandths_le (h : v ≤ k) (hk : k ≤ 100) : tenThousandths v ≤ 36000000 * k := by
  have hproduct : nearest (v * 3600) ≤ ((3600 * k : ℕ) : ℚ) :=
    nearest_le (representable_natCast (by omega)) (by push_cast; linarith)
  have hproduct' : nearest (nearest (v * 3600) * 10000) ≤ ((36000000 * k : ℕ) : ℚ) :=
    nearest_le (representable_natCast (by omega)) (by push_cast at hproduct ⊢; linarith)
  rw [← Nat.lt_succ_iff, tenThousandths, Nat.floor_lt' (Nat.succ_ne_zero _)]
  push_cast at hproduct' ⊢
  linarith

lemma hasValue_tenThousandths (h : HasValue x v) (hv : 0 ≤ v) (hv' : v ≤ 100) :
    HasValue (round (x * 3600.0 * 10000.0)) (tenThousandths v) := by
  have hproduct : nearest (v * 3600) ≤ ((360000 : ℕ) : ℚ) :=
    nearest_le (representable_natCast (by norm_num)) (by push_cast; linarith)
  push_cast at hproduct
  have hlow : 0 ≤ nearest (v * 3600) := nearest_nonneg (by positivity)
  have hlow' : 0 ≤ nearest (nearest (v * 3600) * 10000) := nearest_nonneg (by positivity)
  have hscaled := (h.mul hasValue_3600 (abs_nearest_lt_of_le (by positivity) (by linarith))).mul
    hasValue_10000 (abs_nearest_lt_of_le (by positivity) (by linarith))
  have := hasValue_round hscaled hlow'
  rwa [← natCast_floor_eq_intCast_floor (by linarith)] at this

/-- Two roundings on the way add little to the half that the last one can make. -/
lemma abs_tenThousandths_sub_le (hv : 0 ≤ v) (hv' : v ≤ 100) :
    |tenThousandths v - v * 36000000| ≤ 1 / 2 + 5 / 2 ^ 23 := by
  have hfirst : |nearest (v * 3600) - v * 3600| ≤ 2 ^ (-34 : ℤ) / 2 :=
    abs_nearest_sub_le_of_lt (by norm_num) (by positivity) (by norm_num; linarith)
  have hproduct₀ : 0 ≤ nearest (v * 3600) := nearest_nonneg (by positivity)
  obtain ⟨hfirst₀, hfirst₁⟩ := abs_le.1 hfirst
  norm_num at hfirst₀ hfirst₁
  have hsecond : |nearest (nearest (v * 3600) * 10000) - nearest (v * 3600) * 10000| ≤
      2 ^ (-21 : ℤ) / 2 :=
    abs_nearest_sub_le_of_lt (by norm_num) (by positivity) (by norm_num; linarith)
  obtain ⟨hsecond₀, hsecond₁⟩ := abs_le.1 hsecond
  norm_num at hsecond₀ hsecond₁
  have hlow := Nat.lt_floor_add_one (nearest (nearest (v * 3600) * 10000) + 1 / 2)
  have hhigh := Nat.floor_le (show 0 ≤ nearest (nearest (v * 3600) * 10000) + 1 / 2 by
    linarith [nearest_nonneg (show 0 ≤ nearest (v * 3600) * 10000 by positivity)])
  unfold tenThousandths
  rw [abs_le]
  constructor <;> linarith

end Rounding

/-! ### Cutting -/

section Cut
variable {x y c : Float} {v t : ℚ} {k n : ℕ}

/-- Rounding does not take a quotient to the next whole number if the dividend stays away from it.
-/
lemma floor_nearest_div {unit k : ℕ} (hunit : 0 < unit) (hunit' : unit ≤ 3600) (hk : k ≤ 100)
    (hlow : (unit * k : ℕ) ≤ t) (hhigh : t ≤ (unit * (k + 1) : ℕ) - 1 / 2 ^ 14) :
    ⌊nearest (t / unit)⌋ = k := by
  have hpos : (0 : ℚ) < unit := by exact_mod_cast hunit
  have hsmall : (unit : ℚ) ≤ 3600 := by exact_mod_cast hunit'
  have hquotient : t / unit ≤ k + 1 - 1 / 2 ^ 26 := by
    rw [div_le_iff₀ hpos]
    push_cast at hhigh
    linarith
  have hbelow : (k : ℚ) ≤ nearest (t / unit) := by
    refine le_nearest (representable_natCast (by omega)) ?_
    rw [le_div_iff₀ hpos, mul_comm]
    exact_mod_cast hlow
  have habove : nearest (t / unit) ≤ ((k + 1) * 2 ^ 26 - 1 : ℤ) / 2 ^ 26 :=
    nearest_le (representable_div (by rw [abs_of_nonneg (by omega)]; omega) 26 (by norm_num))
      (by push_cast; linarith)
  push_cast at habove
  rw [Int.floor_eq_iff, Int.cast_natCast]
  exact ⟨hbelow, habove.trans_lt (by linarith)⟩

/-- Whole units of some seconds are cut off. -/
lemma hasValue_cut (unit k : ℕ) (hy : HasValue y t) (hc : HasValue c unit) (hunit : 0 < unit)
    (hunit' : unit ≤ 3600) (hk : k ≤ 100) (hlow : (unit * k : ℕ) ≤ t)
    (hhigh : t ≤ (unit * (k + 1) : ℕ) - 1 / 2 ^ 14) :
    HasValue (floor (y / c)) k ∧ HasValue (y - floor (y / c) * c)
      (nearest (t - (unit * k : ℕ))) := by
  have hpos : (0 : ℚ) < unit := by exact_mod_cast hunit
  have hproduct : unit * k ≤ 3600 * 100 := Nat.mul_le_mul hunit' hk
  have hproduct' : ((unit * k : ℕ) : ℚ) ≤ 3600 * 100 := by exact_mod_cast hproduct
  have hnext : ((unit * (k + 1) : ℕ) : ℚ) ≤ 3600 * 101 := by
    exact_mod_cast Nat.mul_le_mul hunit' (Nat.add_le_add_right hk 1)
  have ht₀ : 0 ≤ t := (Nat.cast_nonneg _).trans hlow
  have hquotient : t / unit ≤ 2 ^ 50 :=
    (div_le_self ht₀ (by exact_mod_cast hunit)).trans (by linarith)
  have hfloor :=
    hasValue_floor (hy.div hc hpos.ne' (abs_nearest_lt_of_le (by positivity) hquotient))
  rw [floor_nearest_div hunit hunit' hk hlow hhigh, Int.cast_natCast] at hfloor
  have hexact : nearest (k * unit) = (unit * k : ℕ) := by
    rw [show (k : ℚ) * unit = (unit * k : ℕ) by push_cast; ring]
    exact (representable_natCast (by omega)).nearest_eq
  have hcut := hfloor.mul hc (by
    rw [hexact, Nat.abs_cast]
    exact (hproduct'.trans (by norm_num)).trans_lt two_pow_lt_limit)
  rw [hexact] at hcut
  have hleft : t - (unit * k : ℕ) ≤ 2 ^ 50 := by
    have : (0 : ℚ) ≤ (unit * k : ℕ) := Nat.cast_nonneg _
    linarith
  exact ⟨hfloor, hy.sub hcut (abs_nearest_lt_of_le (sub_nonneg.2 hlow) hleft)⟩

/-- What is left after two cuts is as near to the ten-thousandths as the total was, up to two more
roundings. -/
lemma abs_cut_sub_lt {n a b : ℚ} (ht : |t - n / 10000| ≤ 2 ^ (-34 : ℤ) / 2) (ha : 0 ≤ t - a)
    (ha' : t - a < 4096) (hb : 0 ≤ nearest (t - a) - b) (hb' : nearest (t - a) - b < 64) :
    |nearest (nearest (t - a) - b) * 10 ^ 4 - (n - 10000 * (a + b))| < 1 / 2 := by
  have hfirst : |nearest (t - a) - (t - a)| ≤ 2 ^ (-41 : ℤ) / 2 :=
    abs_nearest_sub_le_of_lt (by norm_num) ha (by norm_num; linarith)
  have hsecond : |nearest (nearest (t - a) - b) - (nearest (t - a) - b)| ≤ 2 ^ (-47 : ℤ) / 2 :=
    abs_nearest_sub_le_of_lt (by norm_num) hb (by norm_num; linarith)
  obtain ⟨ht₀, ht₁⟩ := abs_le.1 ht
  obtain ⟨hfirst₀, hfirst₁⟩ := abs_le.1 hfirst
  obtain ⟨hsecond₀, hsecond₁⟩ := abs_le.1 hsecond
  norm_num at ht₀ ht₁ hfirst₀ hfirst₁ hsecond₀ hsecond₁
  rw [abs_lt]
  constructor <;> linarith

/-! A total of seconds is as near to whole seconds as its ten-thousandths are, up to half of its
last bit. -/

lemma abs_nearest_seconds_sub_le (hn : n < 36000000 * 100) :
    |nearest ((n : ℚ) / 10000) - n / 10000| ≤ 2 ^ (-34 : ℤ) / 2 := by
  have hn : (n : ℚ) < 36000000 * 100 := by exact_mod_cast hn
  have hn₀ : (0 : ℚ) ≤ n := n.cast_nonneg
  exact abs_nearest_sub_le_of_lt (by norm_num) (by positivity) (by norm_num; linarith)

lemma le_nearest_seconds (hn : n < 36000000 * 100) (hk : 10000 * k ≤ n) :
    (k : ℚ) ≤ nearest (n / 10000) := by
  refine le_nearest (representable_natCast (by omega)) ?_
  rw [le_div_iff₀ (by norm_num)]
  exact_mod_cast (Nat.mul_comm k 10000).trans_le hk

lemma nearest_seconds_le (hn : n < 36000000 * 100) (hk : n + 1 ≤ 10000 * k) :
    nearest ((n : ℚ) / 10000) ≤ k - 1 / 2 ^ 14 := by
  have hk : (n : ℚ) + 1 ≤ 10000 * k := by exact_mod_cast hk
  have := (abs_le.1 (abs_nearest_seconds_sub_le hn)).2
  norm_num at this
  linarith

/-- The parts of a number of ten-thousandths of a second. -/
structure PartsOf (p : Sexagesimal) (n : ℕ) : Prop where
  units : p.units = n / 36000000
  minutes : p.minutes = n % 36000000 / 600000
  seconds : ∃ z, HasValue p.seconds z ∧ 0 ≤ z ∧ |z * 10 ^ 4 - (n % 600000 : ℕ)| < 1 / 2

lemma partsOf_of_hasValue {total : Float} (h : HasValue total (nearest (n / 10000)))
    (hn : n < 36000000 * 100) :
    PartsOf ⟨(floor (total / 3600.0)).toUInt64.toNat,
      (floor ((total - floor (total / 3600.0) * 3600.0) / 60.0)).toUInt64.toNat,
      nonNegative (total - floor (total / 3600.0) * 3600.0 -
        floor ((total - floor (total / 3600.0) * 3600.0) / 60.0) * 60.0)⟩ n := by
  obtain ⟨units, hunits⟩ : ∃ units, units = n / 36000000 := ⟨_, rfl⟩
  obtain ⟨minutes, hminutes⟩ : ∃ minutes, minutes = n % 36000000 / 600000 := ⟨_, rfl⟩
  have hrest : n % 600000 = n - 10000 * (3600 * units + 60 * minutes) := by omega
  obtain ⟨hunitsValue, hleft⟩ := hasValue_cut 3600 units h (by exact_mod_cast hasValue_3600)
    (by norm_num) le_rfl (by omega) (le_nearest_seconds hn (by omega))
    (nearest_seconds_le hn (by omega))
  have ht := abs_nearest_seconds_sub_le hn
  have ht₀ := le_nearest_seconds (k := 3600 * units + 60 * minutes) hn (by omega)
  have ht₁ := nearest_seconds_le (k := 3600 * units + 60 * (minutes + 1)) hn (by omega)
  generalize nearest ((n : ℚ) / 10000) = t at *
  rw [Nat.cast_add] at ht₀ ht₁
  -- The rest of the hour lies between the same whole minutes as before it was rounded.
  have hr₀ : ((60 * minutes : ℕ) : ℚ) ≤ nearest (t - (3600 * units : ℕ)) :=
    le_nearest (representable_natCast (by omega)) (by linarith)
  have hr₁ : nearest (t - (3600 * units : ℕ)) ≤ (60 * (minutes + 1) : ℕ) - 1 / 2 ^ 14 := by
    have := nearest_le (q := t - (3600 * units : ℕ))
      (d := (60 * (minutes + 1) * 2 ^ 14 - 1 : ℤ) / 2 ^ 14)
      (representable_div (by rw [abs_of_nonneg (by omega)]; omega) 14 (by norm_num))
      (by push_cast at ht₁ ⊢; linarith)
    push_cast at this ⊢
    linarith
  obtain ⟨hminutesValue, hsecondsValue⟩ :=
    hasValue_cut 60 minutes hleft (by exact_mod_cast hasValue_60) (by norm_num) (by norm_num)
      (by omega) hr₀ hr₁
  have hz : 0 ≤ nearest (nearest (t - (3600 * units : ℕ)) - (60 * minutes : ℕ)) :=
    nearest_nonneg (by linarith)
  rw [nonNegative_eq hsecondsValue hz]
  refine ⟨?_, ?_, _, hsecondsValue, hz, ?_⟩
  · rw [toNat_toUInt64 hunitsValue (by omega), hunits]
  · rw [toNat_toUInt64 hminutesValue (by omega), hminutes]
  · have hrestValue :
        ((n % 600000 : ℕ) : ℚ) = n - 10000 * ((3600 * units : ℕ) + (60 * minutes : ℕ)) := by
      rw [hrest, Nat.cast_sub (by omega)]
      push_cast
      ring
    have hhour : ((60 * (minutes + 1) : ℕ) : ℚ) ≤ 3600 := by
      exact_mod_cast (by omega : 60 * (minutes + 1) ≤ 3600)
    have hminute : ((60 * (minutes + 1) : ℕ) : ℚ) = (60 * minutes : ℕ) + 60 := by push_cast; ring
    rw [hrestValue]
    exact abs_cut_sub_lt ht (by linarith [Nat.cast_nonneg (α := ℚ) (60 * minutes)])
      (by linarith) (by linarith) (by linarith)

/-- The parts of a number are those of its ten-thousandths of a second. -/
theorem partsOf_ofFloat (h : HasValue x v) (hv : 0 ≤ v) (hv' : v ≤ 99) :
    PartsOf (Sexagesimal.ofFloat x) (tenThousandths v) := by
  have hn := tenThousandths_le (k := 99) (by exact_mod_cast hv') (by norm_num)
  have hn' : (tenThousandths v : ℚ) ≤ 36000000 * 99 := by exact_mod_cast hn
  have hrounded := hasValue_tenThousandths h hv (by linarith)
  exact partsOf_of_hasValue (hrounded.div hasValue_10000 (by norm_num)
    (abs_nearest_lt_of_le (by positivity) (by linarith))) (by omega)

end Cut

/-! ### Texts -/

/-- The text of a number of ten-thousandths of a second. -/
def sexagesimalText (n : ℕ) : SexagesimalText where
  units := padZeros 2 (digitChars (n / 36000000))
  minutes := padZeros 2 (digitChars (n % 36000000 / 600000))
  seconds := ⟨padZeros 2 (digitChars (n % 600000 / 10000)),
    padZeros 4 (digitChars (n % 600000 % 10000))⟩

section Text
variable {n : ℕ}

lemma isDigits_padZeros {width : ℕ} (n : ℕ) : IsDigits (padZeros width (digitChars n)) where
  nonempty := by
    rw [padZeros, digitChars]
    exact List.append_ne_nil_of_right_ne_nil _ Nat.toDigits_ne_nil
  digits _ := isDigit_of_mem_padZeros

lemma value_seconds_sexagesimalText (n : ℕ) :
    (sexagesimalText n).seconds.value = (n % 600000 : ℕ) / 10000 := by
  have hlength : (padZeros 4 (digitChars (n % 600000 % 10000))).length = 4 :=
    length_padZeros (by norm_num) (by omega)
  have hdigits : n % 600000 / 10000 * 10 ^ 4 + n % 600000 % 10000 = n % 600000 := by omega
  rw [DecimalText.value, sexagesimalText, natOfDigits_append, natOfDigits_padZeros_digitChars,
    natOfDigits_padZeros_digitChars, hlength, hdigits, zpow_neg, ← div_eq_mul_inv]
  norm_num

lemma unitCount_sexagesimalText (n : ℕ) : (sexagesimalText n).unitCount = n / 36000000 :=
  natOfDigits_padZeros_digitChars 2 _

lemma minuteCount_sexagesimalText (n : ℕ) :
    (sexagesimalText n).minuteCount = n % 36000000 / 600000 :=
  natOfDigits_padZeros_digitChars 2 _

lemma total_sexagesimalText (n : ℕ) : (sexagesimalText n).total = n / 10000 := by
  have hparts : (n : ℚ) = (n / 36000000 : ℕ) * 36000000 + (n % 36000000 / 600000 : ℕ) * 600000 +
      (n % 600000 : ℕ) := by
    exact_mod_cast
      (by omega : n = n / 36000000 * 36000000 + n % 36000000 / 600000 * 600000 + n % 600000)
  rw [SexagesimalText.total, unitCount_sexagesimalText, minuteCount_sexagesimalText,
    value_seconds_sexagesimalText]
  linarith

lemma valid_sexagesimalText (hn : n < 36000000 * 100) : (sexagesimalText n).Valid where
  units := isDigits_padZeros _
  minutes := isDigits_padZeros _
  seconds := ⟨(isDigits_padZeros _).nonempty, (isDigits_padZeros _).digits,
    (isDigits_padZeros _).digits⟩
  units_le := by
    rw [unitCount_sexagesimalText]
    omega
  minutes_le := by
    rw [minuteCount_sexagesimalText]
    omega
  seconds_le := by
    have : ((n % 600000 : ℕ) : ℚ) ≤ 599999 := by exact_mod_cast (by omega : n % 600000 ≤ 599999)
    rw [value_seconds_sexagesimalText, lastSecond]
    linarith

lemma lettered_sexagesimalText (hn : n < 36000000 * 100) {unit : Char} :
    (sexagesimalText n).Lettered unit ((sexagesimalText n).lettered unit 'm' ['s']) :=
  .intro unit 'm' ['s'] (length_padZeros (by norm_num) (by omega)).le
    (length_padZeros (by norm_num) (by omega)).le
    (length_padZeros (by norm_num) (by omega)).le (by simp) (by simp) (by simp)

lemma padZeros_append (width : ℕ) (s t : List Char) :
    padZeros (width + t.length) (s ++ t) = padZeros width s ++ t := by
  rw [padZeros, padZeros, List.length_append, List.append_assoc, Nat.add_sub_add_right]

lemma chars_of_partsOf {p : Sexagesimal} (h : PartsOf p n) (unit : Char) :
    p.chars unit = (sexagesimalText n).lettered unit 'm' ['s'] := by
  obtain ⟨z, hz, hz₀, hz₁⟩ := h.seconds
  have hlength : ('.' :: padZeros 4 (digitChars (n % 600000 % tenTo 4))).length = 5 :=
    congrArg (· + 1) (length_padZeros (by norm_num) (Nat.mod_lt _ (by decide)))
  have hseconds := padZeros_append 2 (digitChars (n % 600000 / tenTo 4))
    ('.' :: padZeros 4 (digitChars (n % 600000 % tenTo 4)))
  rw [hlength] at hseconds
  rw [Sexagesimal.chars, h.units, h.minutes, fixed_eq hz hz₀ hz₁, hseconds,
    SexagesimalText.lettered, sexagesimalText, DecimalText.chars,
    if_neg (isDigits_padZeros _).nonempty]
  simp only [List.append_assoc, List.cons_append]
  rfl

end Text
end SkyResolver
