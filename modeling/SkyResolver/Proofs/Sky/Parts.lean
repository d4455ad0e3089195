import SkyResolver.Proofs.Number.Digits
import SkyResolver.Sky.Position

/-! The parts of a coordinate. Hours below 24 and degrees below 90, with whole minutes below 60 and
seconds that stay away from 60, always make a coordinate; hours and degrees at their limits are
refused, and the limit of the degrees is 90 itself. -/
namespace SkyResolver
open SkyResolver.Number SkyResolver.Text

/-! ### Constants -/

lemma hasValue_15 : HasValue 15.0 15 := hasValue_of_isNat (n := 15) (by decide +kernel)

lemma hasValue_24 : HasValue 24.0 (24 : ℕ) := hasValue_of_isNat (by decide +kernel)

lemma hasValue_60 : HasValue 60.0 60 := hasValue_of_isNat (n := 60) (by decide +kernel)

lemma hasValue_90 : HasValue 90.0 90 := hasValue_of_isNat (n := 90) (by decide +kernel)

lemma hasValue_360 : HasValue 360.0 360 := hasValue_of_isNat (n := 360) (by decide +kernel)

lemma hasValue_3600 : HasValue 3600.0 3600 := hasValue_of_isNat (n := 3600) (by decide +kernel)

/-- The sum of the limit of the degrees is rounded to 90. -/
lemma hasValue_degreesLimit : HasValue degreesLimit (90 : ℕ) :=
  hasValue_of_isNat (by decide +kernel)

/-! ### Sums of parts -/

/-- The largest number of seconds with which a sum of parts is known to stay below the next unit. -/
def lastSecond : ℚ := 60 - 1 / 2 ^ 14

lemma lastSecond_lt : lastSecond < 60 := by norm_num [lastSecond]

/-- Three numbers are whole units, whole minutes and seconds that make less than one more unit. -/
structure PartsRead (u m s : Float) (units minutes : ℕ) (seconds : ℚ) : Prop where
  readUnits : HasValue u units
  readMinutes : HasValue m minutes
  readSeconds : HasValue s seconds
  units_le : units ≤ 100
  minutes_le : minutes ≤ 59
  seconds_nonneg : 0 ≤ seconds
  seconds_le : seconds ≤ lastSecond

lemma representable_div {n : ℤ} (h : |n| ≤ 2 ^ 53) (k : ℕ) (hk : k ≤ 1074) :
    Representable (n / 2 ^ k) := by
  have := representable_of_le h (e := -(k : ℤ)) (by omega)
  rwa [zpow_neg, zpow_natCast, ← div_eq_mul_inv] at this

lemma two_pow_lt_limit : (2 : ℚ) ^ 50 < 2 ^ (1024 : ℤ) :=
  calc (2 : ℚ) ^ 50 = 2 ^ (50 : ℤ) := rfl
    _ < 2 ^ (1024 : ℤ) := zpow_lt_zpow_right₀ (by norm_num) (by norm_num)

lemma abs_nearest_lt_of_le {q : ℚ} (hq : 0 ≤ q) (hle : q ≤ 2 ^ 50) :
    |nearest q| < 2 ^ (1024 : ℤ) := by
  have hrepresentable : Representable (2 ^ 50) := ⟨1, 50, by norm_num, by norm_num, by norm_num⟩
  exact abs_nearest_lt hq ((nearest_le hrepresentable hle).trans_lt two_pow_lt_limit)

section Parts
variable {u m s limit : Float} {units minutes bound : ℕ} {seconds : ℚ}

/-- Units, minutes and seconds in one number. It is below the next unit by more than the three
roundings can make up for. -/
lemma PartsRead.exists_hasValue_sum (h : PartsRead u m s units minutes seconds) :
    ∃ v, HasValue (u + m / 60.0 + s / 3600.0) v ∧ 0 ≤ v ∧ v ≤ units + 1 - 1 / 2 ^ 26 := by
  have hunits : units ≤ 100 := h.units_le
  have hunits' : (units : ℚ) ≤ 100 := by exact_mod_cast h.units_le
  have hminutes' : (minutes : ℚ) ≤ 59 := by exact_mod_cast h.minutes_le
  have hunits₀ : (0 : ℚ) ≤ units := units.cast_nonneg
  have hminutes₀ : (0 : ℚ) ≤ minutes := minutes.cast_nonneg
  have hlow := h.seconds_nonneg
  have hhigh := h.seconds_le
  unfold lastSecond at hhigh
  -- Each rounded number is bounded by a multiple of `1 / 2 ^ 30`, which rounding does not pass.
  have hgrid (n : ℤ) (hn : |n| ≤ 2 ^ 53) : Representable (n / 2 ^ 30) :=
    representable_div hn 30 (by norm_num)
  have hm₀ : 0 ≤ nearest (minutes / 60) := nearest_nonneg (by positivity)
  have hm₁ : nearest (minutes / 60) ≤ (1055846127 : ℤ) / 2 ^ 30 :=
    nearest_le (hgrid 1055846127 (by norm_num)) (by push_cast; linarith)
  have hs₀ : 0 ≤ nearest (seconds / 3600) := nearest_nonneg (by positivity)
  have hs₁ : nearest (seconds / 3600) ≤ (17895679 : ℤ) / 2 ^ 30 :=
    nearest_le (hgrid 17895679 (by norm_num)) (by push_cast; linarith)
  push_cast at hm₁ hs₁
  have hsum₀ : 0 ≤ nearest (units + nearest (minutes / 60)) := nearest_nonneg (by positivity)
  have hsum₁ : nearest (units + nearest (minutes / 60)) ≤
      ((units * 2 ^ 30 + 1055846127 : ℤ)) / 2 ^ 30 :=
    nearest_le (hgrid _ (by rw [abs_of_nonneg (by positivity)]; omega)) (by push_cast; linarith)
  push_cast at hsum₁
  refine ⟨nearest (nearest (units + nearest (minutes / 60)) + nearest (seconds / 3600)), ?_,
    nearest_nonneg (by positivity), ?_⟩
  · have hquotient :=
      h.readMinutes.div hasValue_60 (by norm_num)
        (abs_nearest_lt_of_le (by positivity) (by linarith))
    have hquotient' :=
      h.readSeconds.div hasValue_3600 (by norm_num)
        (abs_nearest_lt_of_le (by positivity) (by linarith))
    exact (h.readUnits.add hquotient (abs_nearest_lt_of_le (by positivity) (by linarith))).add
      hquotient' (abs_nearest_lt_of_le (by positivity) (by linarith))
  · refine (nearest_le (d := ((units * 2 ^ 30 + 1073741806 : ℤ)) / 2 ^ 30)
      (hgrid _ (by rw [abs_of_nonneg (by positivity)]; omega)) (by push_cast; linarith)).trans ?_
    push_cast
    linarith

/-! ### Checks -/

lemma PartsRead.checkParts_ok (h : PartsRead u m s units minutes seconds)
    (hlimit : HasValue limit bound) (hunits : units < bound) : checkParts u m s limit = .ok () := by
  have hlow : ¬u < 0.0 := by
    rw [h.readUnits.lt_iff hasValue_zero, not_lt]
    exact units.cast_nonneg
  have hhigh : ¬limit ≤ u := by
    rw [hlimit.le_iff h.readUnits, not_le]
    exact_mod_cast hunits
  have hm₀ : 0.0 ≤ m := (hasValue_zero.le_iff h.readMinutes).2 minutes.cast_nonneg
  have hm₁ : m < 60.0 :=
    (h.readMinutes.lt_iff hasValue_60).2
      (by exact_mod_cast Nat.lt_of_le_of_lt h.minutes_le (by norm_num))
  have hs₀ : 0.0 ≤ s := (hasValue_zero.le_iff h.readSeconds).2 h.seconds_nonneg
  have hs₁ : s < 60.0 := (h.readSeconds.lt_iff hasValue_60).2 (h.seconds_le.trans_lt lastSecond_lt)
  simp [checkParts, hlow, hhigh, hm₀, hm₁, hs₀, hs₁]

lemma PartsRead.checkParts_error (h : PartsRead u m s units minutes seconds)
    (hlimit : HasValue limit bound) (hunits : bound ≤ units) :
    checkParts u m s limit = .error (.unitsOutOfRange u) := by
  have hhigh : limit ≤ u := (hlimit.le_iff h.readUnits).2 (by exact_mod_cast hunits)
  rw [checkParts, if_pos]
  simp [hhigh]

end Parts

/-! ### Coordinates -/

/-- The coordinate is one on the sky. -/
structure Coordinate.InRange (c : Coordinate) : Prop where
  ra : ∃ ra, HasValue c.ra ra ∧ 0 ≤ ra ∧ ra < 360
  dec : ∃ dec, HasValue c.dec dec ∧ |dec| ≤ 90

section Coordinate
variable {h m s d arcmin arcsec : Float} {hours minutes degrees arcminutes : ℕ}
  {seconds arcseconds : ℚ}

/-- Parts below the limits make a coordinate. -/
lemma exists_ofSexagesimal (hra : PartsRead h m s hours minutes seconds)
    (hdec : PartsRead d arcmin arcsec degrees arcminutes arcseconds) (hhours : hours < 24)
    (hdegrees : degrees < 90) (negative : Bool) :
    ∃ c, ofSexagesimal h m s negative d arcmin arcsec = .ok c ∧ c.InRange := by
  obtain ⟨ra, hra', hra₀, hra₁⟩ := hra.exists_hasValue_sum
  obtain ⟨dec, hdec', hdec₀, hdec₁⟩ := hdec.exists_hasValue_sum
  have hhours' : (hours : ℚ) ≤ 23 := by exact_mod_cast Nat.le_of_lt_succ hhours
  have hdegrees' : (degrees : ℚ) ≤ 89 := by exact_mod_cast Nat.le_of_lt_succ hdegrees
  have hok : ofSexagesimal h m s negative d arcmin arcsec =
      .ok { ra := (h + m / 60.0 + s / 3600.0) * 15.0,
            dec := if negative then -(d + arcmin / 60.0 + arcsec / 3600.0)
              else d + arcmin / 60.0 + arcsec / 3600.0 } := by
    rw [ofSexagesimal, hra.checkParts_ok hasValue_24 hhours,
      hdec.checkParts_ok hasValue_degreesLimit hdegrees]
    rfl
  have hproduct := hra'.mul hasValue_15 (abs_nearest_lt_of_le (by positivity) (by linarith))
  have hbound : nearest (ra * 15) ≤ (360 * 2 ^ 26 - 15 : ℤ) / 2 ^ 26 :=
    nearest_le (representable_div (by norm_num) 26 (by norm_num)) (by push_cast; linarith)
  push_cast at hbound
  refine ⟨_, hok, ⟨_, hproduct, nearest_nonneg (by positivity), hbound.trans_lt (by norm_num)⟩, ?_⟩
  cases negative with
  | false => exact ⟨dec, hdec', by rw [abs_of_nonneg hdec₀]; linarith⟩
  | true => exact ⟨-dec, hdec'.neg, by rw [abs_neg, abs_of_nonneg hdec₀]; linarith⟩

/-- Hours at their limit are refused, and degrees at theirs are. -/
lemma ofSexagesimal_error (hra : PartsRead h m s hours minutes seconds)
    (hdec : PartsRead d arcmin arcsec degrees arcminutes arcseconds)
    (hlimit : ¬(hours < 24 ∧ degrees < 90)) (negative : Bool) :
    ofSexagesimal h m s negative d arcmin arcsec =
      .error (.unitsOutOfRange (if hours < 24 then d else h)) := by
  by_cases hhours : hours < 24
  · have hdegrees : 90 ≤ degrees := Nat.not_lt.1 fun h => hlimit ⟨hhours, h⟩
    rw [ofSexagesimal, hra.checkParts_ok hasValue_24 hhours,
      hdec.checkParts_error hasValue_degreesLimit hdegrees, if_pos hhours]
    rfl
  · rw [ofSexagesimal, hra.checkParts_error hasValue_24 (Nat.not_lt.1 hhours), if_neg hhours]
    rfl

end Coordinate

/-! ### The last check -/

lemma Coordinate.inRange_iff {c : Coordinate} :
    c.InRange ↔ (0.0 ≤ c.ra ∧ c.ra < 360.0) ∧ -90.0 ≤ c.dec ∧ c.dec ≤ 90.0 := by
  refine ⟨fun ⟨⟨ra, hra, hra₀, hra₁⟩, dec, hdec, hdec'⟩ => ?_,
    fun ⟨⟨hra₀, hra₁⟩, hdec₀, hdec₁⟩ => ?_⟩
  · obtain ⟨hdec₀, hdec₁⟩ := abs_le.1 hdec'
    exact ⟨⟨(hasValue_zero.le_iff hra).2 hra₀, (hra.lt_iff hasValue_360).2 hra₁⟩,
      (hasValue_90.neg.le_iff hdec).2 hdec₀, (hdec.le_iff hasValue_90).2 hdec₁⟩
  · obtain ⟨ra, hra⟩ := exists_hasValue_of_le hasValue_zero hasValue_360 hra₀ (float_le_of_lt hra₁)
    obtain ⟨dec, hdec⟩ := exists_hasValue_of_le hasValue_90.neg hasValue_90 hdec₀ hdec₁
    exact ⟨⟨ra, hra, (hasValue_zero.le_iff hra).1 hra₀, (hra.lt_iff hasValue_360).1 hra₁⟩, dec,
      hdec, abs_le.2 ⟨(hasValue_90.neg.le_iff hdec).1 hdec₀, (hdec.le_iff hasValue_90).1 hdec₁⟩⟩

/-- A coordinate passes the last check exactly if it is on the sky. -/
lemma Coordinate.parse_eq_ok_iff {s : List Char} {c : Coordinate} :
    Coordinate.parse s = .ok c ↔ coordinateOfWords (words s) = .ok c ∧ c.InRange := by
  rw [Coordinate.parse]
  cases coordinateOfWords (words s) with
  | error fault => simp [bind, Except.bind]
  | ok c' =>
    simp only [bind, Except.bind]
    constructor
    · intro h
      split_ifs at h with hra hdec
      cases h
      exact ⟨rfl, Coordinate.inRange_iff.2 (by simpa using And.intro hra hdec)⟩
    · rintro ⟨h, hc⟩
      cases h
      obtain ⟨⟨hra₀, hra₁⟩, hdec₀, hdec₁⟩ := Coordinate.inRange_iff.1 hc
      simp [hra₀, hra₁, hdec₀, hdec₁]

lemma Coordinate.parse_of_error {s : List Char} {fault : CoordinateFault}
    (h : coordinateOfWords (words s) = .error fault) : Coordinate.parse s = .error fault := by
  rw [Coordinate.parse, h]
  rfl

end SkyResolver
