import SkyResolver.Proofs.Sky.Splitting

/-! Reading sexagesimal texts back. The text of a coordinate has minutes and seconds below sixty and
the sign of the declination. It is a position again, except where rounding to four places takes it
to 24 hours or to a pole; where that begins is known to the last bit. -/
namespace SkyResolver
open SkyResolver.Number SkyResolver.Text

/-! ### Adjacent doubles -/

section Adjacent
variable {q : ℚ} {m bound : ℕ} {e : ℤ} {f : ℚ → ℕ}

/-- No double lies between two multiples of the last bit. -/
lemma le_of_lt_adjacent (hq : Representable q) (hnormal : (2 : ℚ) ^ (e + 52) ≤ m * 2 ^ e)
    (h : q < (m + 1 : ℕ) * 2 ^ e) : q ≤ m * 2 ^ e := by
  by_contra hlt
  rw [not_le] at hlt
  obtain ⟨n, rfl⟩ :=
    hq.exists_mul (le_unitExponent_of_le ((hnormal.trans hlt.le).trans (le_abs_self q)))
  have hlow : (m : ℚ) < n := lt_of_mul_lt_mul_right hlt (two_zpow_pos e).le
  have hhigh : (n : ℚ) < (m + 1 : ℕ) := lt_of_mul_lt_mul_right h (two_zpow_pos e).le
  have hlow : (m : ℤ) < n := by exact_mod_cast hlow
  have hhigh : n < (m + 1 : ℕ) := by exact_mod_cast hhigh
  omega

/-- A function that does not decrease passes a bound between two adjacent doubles. -/
lemma lt_iff_lt_adjacent (hf : Monotone f) (hq : Representable q)
    (hnormal : (2 : ℚ) ^ (e + 52) ≤ m * 2 ^ e) (hbelow : f (m * 2 ^ e) < bound)
    (hat : bound ≤ f ((m + 1 : ℕ) * 2 ^ e)) :
    f q < bound ↔ q < (m + 1 : ℕ) * 2 ^ e := by
  refine ⟨fun h => ?_, fun h => (hf (le_of_lt_adjacent hq hnormal h)).trans_lt hbelow⟩
  by_contra hle
  exact absurd (hat.trans (hf (not_lt.1 hle))) (not_le.2 h)

end Adjacent

/-! ### Limits -/

/-- The first right ascension that is rounded up to 24 hours. -/
def fullCircle : Float := 359.99999979166665

/-- The first declination that is rounded up to 90 degrees. -/
def nearlyPole : Float := 89.99999998611112

section Limits
variable {x : Float} {q : ℚ}

lemma hasValue_of_mantissa {m k : ℕ} (h : isFraction x m (2 ^ k) = true) :
    HasValue x (m * 2 ^ (-(k : ℤ))) := by
  have := hasValue_of_isFraction (Nat.two_pow_pos k) h
  rwa [Nat.cast_pow, Nat.cast_ofNat, div_eq_mul_inv, ← zpow_natCast, ← zpow_neg] at this

lemma hasValue_fullCircle :
    HasValue fullCircle ((6333186972324720 + 1 : ℕ) * 2 ^ (-(44 : ℕ) : ℤ)) :=
  hasValue_of_mantissa (by decide +kernel)

lemma hasValue_before_fullCircle :
    HasValue 359.9999997916666 ((6333186972324720 : ℕ) * 2 ^ (-(44 : ℕ) : ℤ)) :=
  hasValue_of_mantissa (by decide +kernel)

lemma hasValue_nearlyPole :
    HasValue nearlyPole ((6333186975012416 + 1 : ℕ) * 2 ^ (-(46 : ℕ) : ℤ)) :=
  hasValue_of_mantissa (by decide +kernel)

lemma hasValue_before_nearlyPole :
    HasValue 89.9999999861111 ((6333186975012416 : ℕ) * 2 ^ (-(46 : ℕ) : ℤ)) :=
  hasValue_of_mantissa (by decide +kernel)

/-- The ten-thousandths in a number that is given as a double can be computed. -/
lemma tenThousandths_eq {n : ℕ} (h : HasValue x q) (hq : 0 ≤ q) (hq' : q ≤ 100)
    (hround : isFraction (round (x * 3600.0 * 10000.0)) n 1 = true) : tenThousandths q = n := by
  have := (hasValue_tenThousandths h hq hq').unique (hasValue_of_isNat hround)
  exact_mod_cast this

lemma tenThousandths_pole_lt_iff (h : HasValue x q) : tenThousandths q < 36000000 * 90 ↔
    x < nearlyPole := by
  rw [h.lt_iff hasValue_nearlyPole]
  refine lt_iff_lt_adjacent (fun _ _ => tenThousandths_mono) h.representable (by norm_num) ?_ ?_
  · rw [tenThousandths_eq (n := 36000000 * 90 - 1) hasValue_before_nearlyPole
      (by norm_num) (by norm_num) (by decide +kernel)]
    norm_num
  · rw [tenThousandths_eq (n := 36000000 * 90) hasValue_nearlyPole (by norm_num) (by norm_num)
      (by decide +kernel)]

lemma hasValue_hours (h : HasValue x q) (hq : 0 ≤ q) (hq' : q ≤ 360) :
    HasValue (x / 15.0) (nearest (q / 15)) :=
  h.div hasValue_15 (by norm_num) (abs_nearest_lt_of_le (by positivity) (by linarith))

lemma nearest_hours_nonneg (hq : 0 ≤ q) : 0 ≤ nearest (q / 15) := nearest_nonneg (by positivity)

lemma nearest_hours_le (hq : q ≤ 360) : nearest (q / 15) ≤ (24 : ℕ) :=
  nearest_le (representable_natCast (by norm_num)) (by push_cast; linarith)

lemma tenThousandths_hours_eq {n : ℕ} (h : HasValue x q) (hq : 0 ≤ q) (hq' : q ≤ 360)
    (hround : isFraction (round (x / 15.0 * 3600.0 * 10000.0)) n 1 = true) :
    tenThousandths (nearest (q / 15)) = n := by
  have hle := nearest_hours_le hq'
  push_cast at hle
  exact tenThousandths_eq (hasValue_hours h hq hq') (nearest_hours_nonneg hq) (by linarith) hround

lemma tenThousandths_circle_lt_iff (h : HasValue x q) :
    tenThousandths (nearest (q / 15)) < 36000000 * 24 ↔ x < fullCircle := by
  rw [h.lt_iff hasValue_fullCircle]
  refine lt_iff_lt_adjacent (f := fun q => tenThousandths (nearest (q / 15)))
    (fun _ _ hle => tenThousandths_mono (nearest_mono (by linarith))) h.representable
    (by norm_num) ?_ ?_
  · rw [tenThousandths_hours_eq (n := 36000000 * 24 - 1) hasValue_before_fullCircle
      (by norm_num) (by norm_num) (by decide +kernel)]
    norm_num
  · rw [tenThousandths_hours_eq (n := 36000000 * 24) hasValue_fullCircle (by norm_num) (by norm_num)
      (by decide +kernel)]

end Limits

/-! ### Texts of coordinates -/

section Place
variable {c : Coordinate}

/-- Half of the fourth place of the seconds, and a little for the roundings on the way to it. -/
def halfPlace : ℚ := (1 / 2 + 1 / 2 ^ 20) / 10000

/-- A place with four places of the seconds that is a coordinate's, and its text. -/
structure Coordinate.PlaceOf (c : Coordinate) (p : SexagesimalPlace) : Prop extends p.Valid where
  texts : c.sexagesimalTexts =
    (String.ofList (p.ra.lettered 'h' 'm' ['s']),
      String.ofList (p.sign :: p.dec.lettered 'd' 'm' ['s']))
  lettered_ra : p.ra.Lettered 'h' (p.ra.lettered 'h' 'm' ['s'])
  lettered_dec : p.dec.Lettered 'd' (p.dec.lettered 'd' 'm' ['s'])
  places_ra : p.ra.seconds.fraction.length = 4
  places_dec : p.dec.seconds.fraction.length = 4
  negative : p.negative = decide (c.dec < 0.0)
  near_ra : ∃ ra, HasValue c.ra ra ∧ |p.ra.total - ra * 240| ≤ halfPlace
  near_dec : ∃ dec, HasValue c.dec dec ∧ |p.dec.total - |dec| * 3600| ≤ halfPlace
  hours_le : p.ra.unitCount ≤ 24
  hours_lt_iff : p.ra.unitCount < 24 ↔ c.ra < fullCircle
  degrees_le : p.dec.unitCount ≤ 90
  degrees_lt_iff : p.dec.unitCount < 90 ↔ c.dec.abs < nearlyPole

lemma abs_total_sub_le {n : ℕ} {q : ℚ} (h : |n - q * 10000| ≤ 1 / 2 + 1 / 2 ^ 20) :
    |(sexagesimalText n).total - q| ≤ halfPlace := by
  obtain ⟨hlow, hhigh⟩ := abs_le.1 h
  rw [total_sexagesimalText, halfPlace, abs_le]
  constructor <;> linarith

lemma abs_total_degrees_sub_le {q : ℚ} (hq : 0 ≤ q) (hq' : q ≤ 90) :
    |(sexagesimalText (tenThousandths q)).total - q * 3600| ≤ halfPlace := by
  obtain ⟨hlow, hhigh⟩ := abs_le.1 (abs_tenThousandths_sub_le hq (by linarith))
  exact abs_total_sub_le (abs_le.2 ⟨by linarith, by linarith⟩)

lemma abs_total_hours_sub_le {q : ℚ} (hq : 0 ≤ q) (hq' : q ≤ 360) :
    |(sexagesimalText (tenThousandths (nearest (q / 15)))).total - q * 240| ≤ halfPlace := by
  have hquotient : |nearest (q / 15) - q / 15| ≤ 2 ^ (-48 : ℤ) / 2 :=
    abs_nearest_sub_le_of_lt (by norm_num) (by positivity) (by norm_num; linarith)
  have hle := nearest_hours_le hq'
  push_cast at hle
  obtain ⟨hquotient₀, hquotient₁⟩ := abs_le.1 hquotient
  obtain ⟨hlow, hhigh⟩ :=
    abs_le.1 (abs_tenThousandths_sub_le (nearest_hours_nonneg hq) (by linarith))
  norm_num at hquotient₀ hquotient₁
  exact abs_total_sub_le (abs_le.2 ⟨by linarith, by linarith⟩)

lemma Coordinate.InRange.exists_placeOf (hc : c.InRange) : ∃ p, c.PlaceOf p := by
  obtain ⟨⟨ra, hra, hra₀, hra₁⟩, dec, hdec, hdec'⟩ := hc
  have hremainder := hasValue_positiveRemainder (n := 360) hra hra₀
    (by exact_mod_cast hra₁) (by norm_num)
  have hhours := hasValue_hours hremainder hra₀ hra₁.le
  have hhours₀ := nearest_hours_nonneg hra₀
  have hhours₁ := nearest_hours_le hra₁.le
  have hn := tenThousandths_le hhours₁ (by norm_num)
  have hn' := tenThousandths_le (k := 90) (by exact_mod_cast hdec') (by norm_num)
  push_cast at hhours₁
  refine ⟨⟨sexagesimalText (tenThousandths (nearest (ra / 15))), decide (c.dec < 0.0),
    sexagesimalText (tenThousandths |dec|)⟩, ?_⟩
  exact
    { ra := valid_sexagesimalText (by omega)
      dec := valid_sexagesimalText (by omega)
      texts := by
        rw [Coordinate.sexagesimalTexts,
          chars_of_partsOf (partsOf_ofFloat hhours hhours₀ (by linarith)),
          chars_of_partsOf (partsOf_ofFloat hdec.abs (abs_nonneg dec) (by linarith))]
        simp [SexagesimalPlace.sign]
      lettered_ra := lettered_sexagesimalText (by omega)
      lettered_dec := lettered_sexagesimalText (by omega)
      places_ra := length_padZeros (by norm_num) (by omega)
      places_dec := length_padZeros (by norm_num) (by omega)
      negative := rfl
      near_ra := ⟨ra, hra, abs_total_hours_sub_le hra₀ hra₁.le⟩
      near_dec := ⟨dec, hdec, abs_total_degrees_sub_le (abs_nonneg dec) hdec'⟩
      hours_le := by
        rw [unitCount_sexagesimalText]
        omega
      hours_lt_iff := by
        rw [← tenThousandths_circle_lt_iff hra, unitCount_sexagesimalText]
        omega
      degrees_le := by
        rw [unitCount_sexagesimalText]
        omega
      degrees_lt_iff := by
        rw [← tenThousandths_pole_lt_iff hdec.abs, unitCount_sexagesimalText]
        omega }

lemma isWord_of_lettered {t : SexagesimalText} {unit : Char} {s : List Char} (h : t.Valid)
    (hunit : unit ∈ ['h', 'd', 'm']) (hs : t.Lettered unit s) : IsWord s where
  nonempty := by
    obtain ⟨c, c', last, -⟩ := hs
    simp [SexagesimalText.lettered]
  visible c hc := (visible_of_lettered h.readable hunit hs hc).1

lemma Coordinate.PlaceOf.written {p : SexagesimalPlace} (h : c.PlaceOf p) :
    p.Written
      (words (p.ra.lettered 'h' 'm' ['s'] ++ ' ' :: p.sign :: p.dec.lettered 'd' 'm' ['s'])) := by
  have hra := isWord_of_lettered h.ra (by simp) h.lettered_ra
  have hdec : IsWord (p.sign :: p.dec.lettered 'd' 'm' ['s']) :=
    ⟨nofun, List.forall_mem_cons.2
      ⟨p.visible_sign.1, (isWord_of_lettered h.dec (by simp) h.lettered_dec).visible⟩⟩
  rw [words_append (by decide), words_eq_singleton hra, words_eq_singleton hdec]
  exact .letters h.lettered_ra h.lettered_dec

/-- Both texts of a coordinate, with a space between them. -/
def Coordinate.positionText (c : Coordinate) : String :=
  c.sexagesimalTexts.1 ++ " " ++ c.sexagesimalTexts.2

/-- The text of a coordinate is a position again if it is not rounded up to 24 hours or to a pole;
if it is, the hours or the degrees are found out of range. -/
theorem Coordinate.parse_positionText (hc : c.InRange) (default : Float) :
    ∃ p, c.PlaceOf p ∧
      (c.ra < fullCircle ∧ c.dec.abs < nearlyPole → ∃ position,
        Position.parse default c.positionText = .ok position ∧ position.coordinate.InRange) ∧
      (¬(c.ra < fullCircle ∧ c.dec.abs < nearlyPole) → ∃ x,
        HasValue x (if c.ra < fullCircle then 90 else 24) ∧
        Position.parse default c.positionText =
          .error { input := c.positionText, fault := .unitsOutOfRange x }) := by
  obtain ⟨p, hp⟩ := hc.exists_placeOf
  have htext : c.positionText.toList =
      p.ra.lettered 'h' 'm' ['s'] ++ ' ' :: p.sign :: p.dec.lettered 'd' 'm' ['s'] := by
    simp [Coordinate.positionText, hp.texts]
  obtain ⟨haccept, hrefuse⟩ := p.parse_position hp.toValid hp.written (.inl htext) default
  refine ⟨p, hp, fun ⟨hra, hdec⟩ => haccept ⟨hp.hours_lt_iff.2 hra, hp.degrees_lt_iff.2 hdec⟩,
    fun hlimits => ?_⟩
  rw [← hp.hours_lt_iff, ← hp.degrees_lt_iff] at hlimits
  obtain ⟨x, hx, hparse⟩ := hrefuse hlimits
  refine ⟨x, ?_, hparse⟩
  by_cases hhours : p.ra.unitCount < 24
  · have hdegrees : p.dec.unitCount = 90 :=
      le_antisymm hp.degrees_le (not_lt.1 fun h => hlimits ⟨hhours, h⟩)
    rw [if_pos hhours, hdegrees] at hx
    rw [if_pos (hp.hours_lt_iff.1 hhours)]
    exact_mod_cast hx
  · have hfull : p.ra.unitCount = 24 := le_antisymm hp.hours_le (not_lt.1 hhours)
    rw [if_neg hhours, hfull] at hx
    rw [if_neg fun h => hhours (hp.hours_lt_iff.2 h)]
    exact_mod_cast hx

theorem Coordinate.parse_positionText_of_ordinary :
    (⟨80.89416667, -69.75611111⟩ : Coordinate).InRange ∧ ∃ position,
      Position.parse 0.5 (⟨80.89416667, -69.75611111⟩ : Coordinate).positionText = .ok position ∧
      position.coordinate.InRange := by
  have hc : (⟨80.89416667, -69.75611111⟩ : Coordinate).InRange :=
    Coordinate.inRange_iff.2 (by decide +kernel)
  obtain ⟨p, -, haccept, -⟩ := Coordinate.parse_positionText hc 0.5
  exact ⟨hc, haccept (by decide +kernel)⟩

/-- A right ascension just below a full circle is written with 24 hours, which are no position. -/
theorem Coordinate.positionText_of_fullCircle :
    (⟨359.99999999, 0.0⟩ : Coordinate).InRange ∧
    (⟨359.99999999, 0.0⟩ : Coordinate).sexagesimalTexts = ("24h00m00.0000s", "+00d00m00.0000s") ∧
    (Position.parse 0.5 (⟨359.99999999, 0.0⟩ : Coordinate).positionText).isOk = false :=
  ⟨Coordinate.inRange_iff.2 (by decide +kernel), by decide +kernel, by decide +kernel⟩

end Place
end SkyResolver
