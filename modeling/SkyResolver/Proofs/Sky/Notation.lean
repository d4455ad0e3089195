import SkyResolver.Proofs.Sky.Sexagesimal

/-! The notations of a sexagesimal place. Six words, and two texts with letters, in either case and
with or without the last one, stand for the same six numbers, so that they give the same position or
have the same fault, out of range or not. A minus in front of the degrees is in the sign of the
declination, also if that is zero. -/
namespace SkyResolver
open SkyResolver.Number SkyResolver.Text

/-! ### Short texts -/

/-- One or two digits of units, of minutes and of seconds, and any fraction of a second. -/
structure SexagesimalText.Short (t : SexagesimalText) : Prop where
  units : IsDigits t.units
  minutes : IsDigits t.minutes
  seconds : t.seconds.Valid
  units_length : t.units.length ≤ 2
  minutes_length : t.minutes.length ≤ 2
  seconds_length : t.seconds.whole.length ≤ 2

lemma natOfDigits_le_of_length {s : List Char} (h : IsDigits s) (hlength : s.length ≤ 2) :
    natOfDigits s ≤ 100 :=
  (natOfDigits_lt h.digits).le.trans (Nat.pow_le_pow_right (by norm_num) hlength)

lemma SexagesimalText.Short.readable {t : SexagesimalText} (h : t.Short) : t.Readable where
  units := h.units
  minutes := h.minutes
  seconds := h.seconds
  units_le := natOfDigits_le_of_length h.units h.units_length
  minutes_le := natOfDigits_le_of_length h.minutes h.minutes_length
  seconds_le :=
    calc t.seconds.value ≤ 10 ^ t.seconds.whole.length := h.seconds.value_lt.le
      _ ≤ 10 ^ 2 := pow_le_pow_right₀ (by norm_num) h.seconds_length
      _ = 100 := by norm_num

structure SexagesimalPlace.Short (p : SexagesimalPlace) : Prop where
  ra : p.ra.Short
  dec : p.dec.Short

lemma SexagesimalPlace.Short.readable {p : SexagesimalPlace} (h : p.Short) : p.Readable :=
  ⟨h.ra.readable, h.dec.readable⟩

/-! ### The sign of the declination -/

/-- The sum of the parts of a readable text is finite, whether they are in range or not. -/
lemma SexagesimalText.Readable.exists_hasValue_sum {t : SexagesimalText} (h : t.Readable) :
    ∃ v, HasValue ((wholeText t.units).float + (wholeText t.minutes).float / 60.0 +
      t.seconds.float / 3600.0) v := by
  have hseconds := t.seconds.value_nonneg
  have hbound := abs_nearest_lt_of_le hseconds (h.seconds_le.trans (by norm_num))
  have hs := DecimalText.hasValue_float ((le_abs_self _).trans_lt hbound)
  have hs₀ := nearest_nonneg hseconds
  have hs₁ : nearest t.seconds.value ≤ 100 :=
    nearest_le (representable_natCast (n := 100) (by norm_num)) h.seconds_le
  -- No part is above 100, and so no quotient of one is.
  have hquotient {x y : Float} {a b : ℚ} (hx : HasValue x a) (hy : HasValue y b) (ha : 0 ≤ a)
      (ha' : a ≤ 100) (hb : 1 ≤ b) : ∃ q, HasValue (x / y) q ∧ 0 ≤ q ∧ q ≤ 100 := by
    have hle : a / b ≤ 100 := (div_le_self ha hb).trans ha'
    have hnonneg : 0 ≤ a / b := div_nonneg ha (by linarith)
    exact ⟨_, hx.div hy (by linarith) (abs_nearest_lt_of_le hnonneg (hle.trans (by norm_num))),
      nearest_nonneg hnonneg, nearest_le (representable_natCast (n := 100) (by norm_num)) hle⟩
  have hunits : ((natOfDigits t.units : ℕ) : ℚ) ≤ 100 := by exact_mod_cast h.units_le
  have hminutes : ((natOfDigits t.minutes : ℕ) : ℚ) ≤ 100 := by exact_mod_cast h.minutes_le
  obtain ⟨q, hq, hq₀, hq₁⟩ :=
    hquotient (hasValue_wholeText h.minutes_le) hasValue_60 (Nat.cast_nonneg _)
      hminutes (by norm_num)
  obtain ⟨r, hr, hr₀, hr₁⟩ := hquotient hs hasValue_3600 hs₀ hs₁ (by norm_num)
  have hsum₀ : 0 ≤ (natOfDigits t.units : ℚ) + q := add_nonneg (Nat.cast_nonneg _) hq₀
  have hsum₁ : nearest (natOfDigits t.units + q) ≤ 200 :=
    nearest_le (representable_natCast (n := 200) (by norm_num)) (by linarith)
  have hsum := (hasValue_wholeText h.units_le).add hq (abs_nearest_lt_of_le hsum₀ (by linarith))
  exact ⟨_,
    hsum.add hr (abs_nearest_lt_of_le (add_nonneg (nearest_nonneg hsum₀) hr₀) (by linarith))⟩

lemma dec_of_ofSexagesimal {h m s d arcmin arcsec : Float} {negative : Bool} {c : Coordinate}
    (hc : ofSexagesimal h m s negative d arcmin arcsec = .ok c) :
    c.dec = if negative then -(d + arcmin / 60.0 + arcsec / 3600.0) else
    d + arcmin / 60.0 + arcsec / 3600.0 := by
  unfold ofSexagesimal at hc
  cases hra : checkParts h m s 24.0 with
  | error fault => rw [hra] at hc; cases hc
  | ok _ =>
    cases hdec : checkParts d arcmin arcsec degreesLimit with
    | error fault => rw [hra, hdec] at hc; cases hc
    | ok _ =>
      rw [hra, hdec] at hc
      cases hc
      rfl

/-- A declination that is found has the sign that was written. -/
lemma SexagesimalPlace.Readable.hasMinusSign_dec {p : SexagesimalPlace} (hp : p.Readable)
    {c : Coordinate} (hc : p.coordinate = .ok c) : hasMinusSign c.dec = p.negative := by
  obtain ⟨v, hv⟩ := hp.dec.exists_hasValue_sum
  have hsign :
      hasMinusSign ((wholeText p.dec.units).float + (wholeText p.dec.minutes).float / 60.0 +
      p.dec.seconds.float / 3600.0) = false :=
    hasMinusSign_add
      (hasMinusSign_add (DecimalText.hasMinusSign_float _)
        (hasMinusSign_div (DecimalText.hasMinusSign_float _) (hasMinusSign_ofScientific _ _ _)))
      (hasMinusSign_div (DecimalText.hasMinusSign_float _) (hasMinusSign_ofScientific _ _ _))
  rw [dec_of_ofSexagesimal hc]
  cases p.negative with
  | false => exact hsign
  | true => exact hv.hasMinusSign_neg.trans (by rw [hsign, Bool.not_false])

/-! ### Positions -/

lemma Coordinate.coordinateOfWords_of_parse {s : List Char} {c : Coordinate}
    (h : Coordinate.parse s = .ok c) :
    coordinateOfWords (words s) = .ok c :=
  (Coordinate.parse_eq_ok_iff.1 h).1

section Notations
variable {p : SexagesimalPlace} {place place' : List Char} {radius : Option (List Char)}
  {text text' : String}

/-- Two ways to write a place, with the same radius or none behind it, are read alike: as the same
position, whose declination has the sign of the place, or with the same fault. -/
theorem Position.parse_alike (hp : p.Short) (hw : p.Written (words place))
    (hw' : p.Written (words place')) (htext : text.toList = place ++ radiusSuffix radius)
    (htext' : text'.toList = place' ++ radiusSuffix radius) (default : Float) :
    (∃ position, Position.parse default text = .ok position ∧
      Position.parse default text' = .ok position ∧
      hasMinusSign position.coordinate.dec = p.negative) ∨
    ∃ fault, Position.parse default text = .error { input := text, fault } ∧
      Position.parse default text' = .error { input := text', fault } := by
  have hplace := p.coordinateOfWords_of_written hp.readable hw
  have hplace' := p.coordinateOfWords_of_written hp.readable hw'
  have hsame : Coordinate.parse place' = Coordinate.parse place := by
    rw [Coordinate.parse, Coordinate.parse, hplace', hplace]
  rw [Position.parse_eq (p.colon_notMem hp.readable hw) htext,
    Position.parse_eq (p.colon_notMem hp.readable hw') htext', hsame]
  cases hparse : Coordinate.parse place with
  | error fault => exact .inr ⟨fault, rfl, rfl⟩
  | ok c =>
    have hc := hplace.symm.trans (Coordinate.coordinateOfWords_of_parse hparse)
    exact .inl ⟨_, rfl, rfl, hp.readable.hasMinusSign_dec hc⟩

/-- A place on the equator, written as if it were just south of it. -/
def southOfZero : SexagesimalPlace where
  ra := ⟨"5".toList, "07".toList, ⟨"59".toList, "25".toList⟩⟩
  negative := true
  dec := ⟨"00".toList, "0".toList, ⟨"00".toList, "0".toList⟩⟩

lemma southOfZero_short : southOfZero.Short :=
  ⟨⟨by decide, by decide, by decide, by decide, by decide, by decide⟩,
    ⟨by decide, by decide, by decide, by decide, by decide, by decide⟩⟩

theorem Position.parse_alike_of_negative_zero :
    southOfZero.Short ∧ southOfZero.Written (words "5 07 59.25 -00 0 00.0".toList) ∧
    southOfZero.Written (words "5H07m59.25 -00d0M00.0S".toList) ∧
    ∃ position, Position.parse 0.5 "5 07 59.25 -00 0 00.0:1 30" = .ok position ∧
      Position.parse 0.5 "5H07m59.25 -00d0M00.0S:1 30" = .ok position ∧
      hasMinusSign position.coordinate.dec = true := by
  have hsix : southOfZero.Written (words "5 07 59.25 -00 0 00.0".toList) := .six
  have hletters : southOfZero.Written (words "5H07m59.25 -00d0M00.0S".toList) :=
    .letters
      (.intro 'H' 'm' [] (by decide) (by decide) (by decide) (by decide) (by decide) (by decide))
      (.intro 'd' 'M' ['S'] (by decide) (by decide) (by decide) (by decide) (by decide) (by decide))
  have haccepted : (Position.parse 0.5 "5 07 59.25 -00 0 00.0:1 30").isOk = true := by
    decide +kernel
  refine ⟨southOfZero_short, hsix, hletters, ?_⟩
  have htext : "5 07 59.25 -00 0 00.0:1 30".toList =
      "5 07 59.25 -00 0 00.0".toList ++ radiusSuffix (some "1 30".toList) := rfl
  have htext' : "5H07m59.25 -00d0M00.0S:1 30".toList =
      "5H07m59.25 -00d0M00.0S".toList ++ radiusSuffix (some "1 30".toList) := rfl
  obtain hparse | ⟨fault, herror, -⟩ :=
    Position.parse_alike southOfZero_short hsix hletters htext htext' 0.5
  · exact hparse
  · rw [herror] at haccepted
    cases haccepted

end Notations
end SkyResolver
