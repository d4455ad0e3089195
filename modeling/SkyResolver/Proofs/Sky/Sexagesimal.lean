import SkyResolver.Proofs.Number.Signs
import SkyResolver.Proofs.Sky.Parts
import SkyResolver.Proofs.Text.Words

/-! Sexagesimal places. Six words, or two texts with letters behind their parts, are read as the
same numbers, and whether they make a position depends on the units alone. The poles are not
accepted: the limit of the degrees is 90, not a little more. -/
namespace SkyResolver
open SkyResolver.Number SkyResolver.Text

/-! ### Texts -/

/-- One digit or more. -/
structure IsDigits (s : List Char) : Prop where
  nonempty : s ≠ []
  digits : ∀ c ∈ s, c.isDigit = true

/-- Digits without a fraction. -/
def wholeText (digits : List Char) : DecimalText := ⟨digits, []⟩

instance (s : List Char) : Decidable (IsDigits s) :=
  decidable_of_iff (s ≠ [] ∧ s.all Char.isDigit = true)
    ⟨fun h => ⟨h.1, List.all_eq_true.1 h.2⟩, fun h => ⟨h.nonempty, List.all_eq_true.2 h.digits⟩⟩

lemma IsDigits.valid {s : List Char} (h : IsDigits s) : (wholeText s).Valid :=
  ⟨h.nonempty, h.digits, nofun⟩

@[simp] lemma chars_wholeText (digits : List Char) : (wholeText digits).chars = digits := rfl

@[simp] lemma value_wholeText (digits : List Char) :
    (wholeText digits).value = natOfDigits digits := by
  rw [DecimalText.value, wholeText, List.append_nil, List.length_nil, Nat.cast_zero, neg_zero,
    zpow_zero, mul_one]

/-- The digits of units, minutes and seconds. -/
structure SexagesimalText where
  units : List Char
  minutes : List Char
  seconds : DecimalText

namespace SexagesimalText

def unitCount (t : SexagesimalText) : ℕ := natOfDigits t.units

def minuteCount (t : SexagesimalText) : ℕ := natOfDigits t.minutes

/-- The whole text in seconds. -/
def total (t : SexagesimalText) : ℚ := t.unitCount * 3600 + t.minuteCount * 60 + t.seconds.value

structure Valid (t : SexagesimalText) : Prop where
  units : IsDigits t.units
  minutes : IsDigits t.minutes
  seconds : t.seconds.Valid
  units_le : t.unitCount ≤ 100
  minutes_le : t.minuteCount ≤ 59
  seconds_le : t.seconds.value ≤ lastSecond

/-- Digits that are read as numbers, none of them large; units, minutes and seconds can be out of
range. -/
structure Readable (t : SexagesimalText) : Prop where
  units : IsDigits t.units
  minutes : IsDigits t.minutes
  seconds : t.seconds.Valid
  units_le : t.unitCount ≤ 100
  minutes_le : t.minuteCount ≤ 100
  seconds_le : t.seconds.value ≤ 100

/-- The parts with a letter behind each; `last` is what stands behind the seconds. -/
def lettered (t : SexagesimalText) (c c' : Char) (last : List Char) : List Char :=
  t.units ++ c :: (t.minutes ++ c' :: (t.seconds.chars ++ last))

/-- Short parts with letters in either case; the last letter can be missing. -/
inductive Lettered (t : SexagesimalText) (unit : Char) : List Char → Prop
  | intro (c c' : Char) (last : List Char) (hunits : t.units.length ≤ 2)
      (hminutes : t.minutes.length ≤ 2) (hseconds : t.seconds.whole.length ≤ 2)
      (hc : c ∈ [unit, unit.toUpper]) (hc' : c' ∈ ['m', 'M'])
      (hlast : last ∈ [[], ['s'], ['S'], ['ſ']]) : t.Lettered unit (t.lettered c c' last)

end SexagesimalText

/-- The right ascension in hours and the declination in degrees. -/
structure SexagesimalPlace where
  ra : SexagesimalText
  negative : Bool
  dec : SexagesimalText

namespace SexagesimalPlace

def sign (p : SexagesimalPlace) : Char := if p.negative then '-' else '+'

structure Valid (p : SexagesimalPlace) : Prop where
  ra : p.ra.Valid
  dec : p.dec.Valid

/-- The words in which a place is written. -/
inductive Written (p : SexagesimalPlace) : List (List Char) → Prop
  | six : p.Written [p.ra.units, p.ra.minutes, p.ra.seconds.chars, p.sign :: p.dec.units,
      p.dec.minutes, p.dec.seconds.chars]
  | letters {ra dec : List Char} (hra : p.ra.Lettered 'h' ra) (hdec : p.dec.Lettered 'd' dec) :
      p.Written [ra, p.sign :: dec]

structure Readable (p : SexagesimalPlace) : Prop where
  ra : p.ra.Readable
  dec : p.dec.Readable

lemma splitSign_sign (p : SexagesimalPlace) (s : List Char) :
    splitSign (p.sign :: s) = (p.negative, s) := by
  unfold sign
  cases p.negative <;> rfl

lemma demandSign_sign (p : SexagesimalPlace) (s : List Char) :
    demandSign (p.sign :: s) = .ok () := by
  unfold sign
  cases p.negative <;> rfl

end SexagesimalPlace

/-! ### Numbers -/

lemma numberIn_of_splitSign {d : DecimalText} (h : d.Valid) (hle : d.value ≤ 100) {s : List Char}
    {negative : Bool} (hs : splitSign s = (negative, d.chars)) :
    numberIn s = .ok (if negative then -d.float else d.float) := by
  have hbound := abs_nearest_lt_of_le d.value_nonneg (hle.trans (by norm_num))
  rw [numberIn, DecimalText.readFinite?_of_splitSign h ((le_abs_self _).trans_lt hbound) hs]

lemma splitSign_chars {d : DecimalText} (h : d.Valid) : splitSign d.chars = (false, d.chars) := by
  obtain ⟨c, s, hchars, hc⟩ := DecimalText.exists_chars_eq h
  rw [hchars, splitSign_of_isDigit s hc]

lemma numberIn_chars {d : DecimalText} (h : d.Valid) (hle : d.value ≤ 100) :
    numberIn d.chars = .ok d.float := by
  rw [numberIn_of_splitSign h hle (splitSign_chars h), if_neg Bool.false_ne_true]

lemma lastSecond_le : lastSecond ≤ 100 := by norm_num [lastSecond]

lemma value_wholeText_le {digits : List Char} (h : natOfDigits digits ≤ 100) :
    (wholeText digits).value ≤ 100 := by
  rw [value_wholeText]
  exact_mod_cast h

lemma hasValue_wholeText {digits : List Char} (h : natOfDigits digits ≤ 100) :
    HasValue (wholeText digits).float (natOfDigits digits) := by
  have hbound := abs_nearest_lt_of_le (wholeText digits).value_nonneg
    ((value_wholeText_le h).trans (by norm_num))
  have := DecimalText.hasValue_float ((le_abs_self _).trans_lt hbound)
  rwa [value_wholeText, (representable_natCast (h.trans (by norm_num))).nearest_eq] at this

namespace SexagesimalText
variable {t : SexagesimalText}

lemma Valid.readable (h : t.Valid) : t.Readable :=
  { h with minutes_le := h.minutes_le.trans (by
    norm_num), seconds_le := h.seconds_le.trans lastSecond_le }

/-- The units can have a sign in front. -/
lemma Readable.numberIn_units (h : t.Readable) {s : List Char} {negative : Bool}
    (hs : splitSign s = (negative, t.units)) :
    numberIn s = .ok (if negative then -(wholeText t.units).float else (wholeText t.units).float) :=
  numberIn_of_splitSign h.units.valid (value_wholeText_le h.units_le) hs

lemma Readable.numberIn_minutes (h : t.Readable) :
    numberIn t.minutes = .ok (wholeText t.minutes).float :=
  numberIn_chars h.minutes.valid (value_wholeText_le h.minutes_le)

lemma Readable.numberIn_seconds (h : t.Readable) : numberIn t.seconds.chars = .ok t.seconds.float :=
  numberIn_chars h.seconds h.seconds_le

lemma Valid.partsRead (h : t.Valid) :
    PartsRead (wholeText t.units).float (wholeText t.minutes).float t.seconds.float
    t.unitCount t.minuteCount (nearest t.seconds.value) := by
  have hbound := abs_nearest_lt_of_le t.seconds.value_nonneg
    (h.readable.seconds_le.trans (by norm_num))
  have hlast : Representable lastSecond := by
    have := representable_div (n := 60 * 2 ^ 14 - 1) (by norm_num) 14 (by norm_num)
    rwa [show ((60 * 2 ^ 14 - 1 : ℤ) : ℚ) / 2 ^ 14 = lastSecond by norm_num [lastSecond]] at this
  exact ⟨hasValue_wholeText h.units_le, hasValue_wholeText h.readable.minutes_le,
    DecimalText.hasValue_float ((le_abs_self _).trans_lt hbound), h.units_le, h.minutes_le,
    nearest_nonneg t.seconds.value_nonneg, nearest_le hlast h.seconds_le⟩

end SexagesimalText

/-! ### Letters -/

section Letters
variable {letter c c' unit : Char} {digits rest last : List Char}

lemma takeWhile_digits (hdigits : ∀ c ∈ digits, c.isDigit = true)
    (hrest : ∀ c ∈ rest.head?, isDigit c = false) :
    (digits ++ rest).takeWhile isDigit = digits := by
  rw [List.takeWhile_append_of_pos fun c hc => isDigit_of_isDigit (hdigits c hc)]
  cases rest with
  | nil => rw [List.takeWhile_nil, List.append_nil]
  | cons c rest => rw [List.takeWhile_cons_of_neg (by simp [hrest c rfl]), List.append_nil]

lemma dropWhile_digits (hdigits : ∀ c ∈ digits, c.isDigit = true)
    (hrest : ∀ c ∈ rest.head?, isDigit c = false) :
    (digits ++ rest).dropWhile isDigit = rest := by
  rw [List.dropWhile_append_of_pos fun c hc => isDigit_of_isDigit (hdigits c hc)]
  cases rest with
  | nil => rfl
  | cons c rest => rw [List.dropWhile_cons_of_neg (by simp [hrest c rfl])]

lemma length_eq_one_or_two (hne : digits ≠ []) (hlength : digits.length ≤ 2) :
    (digits.length == 1 || digits.length == 2) = true := by
  have := List.length_pos_iff.2 hne
  rw [Bool.or_eq_true, beq_iff_eq, beq_iff_eq]
  omega

/-- What is known of the letters behind units and minutes. -/
structure IsMark (letter c : Char) : Prop where
  lower : c.toLower = letter
  notDigit : isDigit c = false
  notNumber : c.isDigit = false ∧ c ≠ '.' ∧ c ≠ 'e' ∧ c ≠ 'E'
  visible : isBlank c = false
  notColon : c ≠ ':'

lemma isMark_of_mem (hletter : letter ∈ ['h', 'd', 'm']) (hc : c ∈ [letter, letter.toUpper]) :
    IsMark letter c := by
  simp only [List.mem_cons, List.not_mem_nil, or_false] at hletter hc
  obtain rfl | rfl | rfl := hletter <;> obtain rfl | rfl := hc <;>
    exact ⟨by decide, by decide, by decide, by decide, by decide⟩

lemma digitsBefore?_append (hdigits : IsDigits digits) (hlength : digits.length ≤ 2)
    (hc : IsMark letter c) :
    digitsBefore? letter (digits ++ c :: rest) = some (digits, rest) := by
  have hhead : ∀ d ∈ (c :: rest).head?, isDigit d = false := by simp [hc.notDigit]
  rw [digitsBefore?, takeWhile_digits hdigits.digits hhead, dropWhile_digits hdigits.digits hhead]
  dsimp only
  rw [if_pos]
  simp [length_eq_one_or_two hdigits.nonempty hlength, hc.lower]

lemma secondsAtEnd?_append {d : DecimalText} (h : d.Valid) (hlength : d.whole.length ≤ 2)
    (hlast : last ∈ [[], ['s'], ['S'], ['ſ']]) :
    secondsAtEnd? (d.chars ++ last) = some d.chars := by
  have hlength := length_eq_one_or_two h.nonempty hlength
  have hhead : ∀ c ∈ last.head?, isDigit c = false := by
    simp only [List.mem_cons, List.not_mem_nil, or_false] at hlast
    obtain rfl | rfl | rfl | rfl := hlast <;> simp <;> decide
  by_cases hfraction : d.fraction = []
  · rw [DecimalText.chars, if_pos hfraction, secondsAtEnd?, takeWhile_digits h.whole hhead,
      dropWhile_digits h.whole hhead]
    simp only [List.mem_cons, List.not_mem_nil, or_false] at hlast
    obtain rfl | rfl | rfl | rfl := hlast <;> simp [hlength]
  · have hpoint : ∀ c ∈ ('.' :: (d.fraction ++ last)).head?, isDigit c = false := by simp; decide
    rw [DecimalText.chars, if_neg hfraction, List.append_assoc, List.cons_append, secondsAtEnd?,
      takeWhile_digits h.whole hpoint, dropWhile_digits h.whole hpoint]
    simp only [takeWhile_digits h.fraction hhead, dropWhile_digits h.fraction hhead]
    simp only [List.mem_cons, List.not_mem_nil, or_false] at hlast
    obtain rfl | rfl | rfl | rfl := hlast <;> simp [hlength, hfraction]

lemma letterParts?_lettered {t : SexagesimalText} {s : List Char} (h : t.Readable)
    (hunit : unit ∈ ['h', 'd', 'm']) (hs : t.Lettered unit s) :
    letterParts? unit s = some (t.units, t.minutes, t.seconds.chars) := by
  obtain ⟨c, c', last, hunits, hminutes, hseconds, hc, hc', hlast⟩ := hs
  rw [letterParts?, SexagesimalText.lettered,
    digitsBefore?_append h.units hunits (isMark_of_mem hunit hc)]
  simp only [bind, Option.bind]
  rw [digitsBefore?_append h.minutes hminutes (isMark_of_mem (by simp) hc')]
  simp only
  rw [secondsAtEnd?_append h.seconds hseconds hlast]

/-- A text with letters is no number. -/
lemma readFinite?_lettered {t : SexagesimalText} {s : List Char} (h : t.Readable)
    (hunit : unit ∈ ['h', 'd', 'm']) (hs : t.Lettered unit s) : readFinite? s = none := by
  obtain ⟨c, c', last, -, -, -, hc, -, -⟩ := hs
  obtain ⟨hdigit, hpoint, he, hE⟩ := (isMark_of_mem hunit hc).notNumber
  obtain ⟨first, others, hunits⟩ := List.exists_cons_of_ne_nil h.units.nonempty
  have hfirst : first.isDigit = true :=
    h.units.digits first (by rw [hunits]; exact List.mem_cons_self)
  unfold SexagesimalText.lettered
  generalize t.minutes ++ c' :: (t.seconds.chars ++ last) = rest
  have hnone : decimal? (t.units ++ c :: rest) = none := by
    have hnot : t.units.isEmpty = false := by simpa using h.units.nonempty
    rw [decimal?, digitRun_append h.units.digits (by simp [hdigit])]
    simp [hpoint, hnot, exponent?, he, hE]
  have hsign : splitSign (t.units ++ c :: rest) = (false, first :: (others ++ c :: rest)) := by
    rw [hunits, List.cons_append, splitSign_of_isDigit _ hfirst]
  rw [readFinite?, readFloat?_of_isDigit hsign hfirst, ← List.cons_append, ← hunits, hnone]
  rfl

end Letters

/-! ### Places -/

section Place
variable {p : SexagesimalPlace} {ws : List (List Char)} {place : List Char}

lemma SexagesimalPlace.Valid.readable (hp : p.Valid) : p.Readable :=
  ⟨hp.ra.readable, hp.dec.readable⟩

/-- What the numbers of a place make, before the range of the coordinate is checked. -/
def SexagesimalPlace.coordinate (p : SexagesimalPlace) : Except CoordinateFault Coordinate :=
  ofSexagesimal (wholeText p.ra.units).float (wholeText p.ra.minutes).float
    p.ra.seconds.float p.negative
    (wholeText p.dec.units).float (wholeText p.dec.minutes).float p.dec.seconds.float

/-- The six numbers are the same and are checked in the same way, in whatever form they are written.
-/
lemma SexagesimalPlace.coordinateOfWords_of_written (hp : p.Readable) (hw : p.Written ws) :
    coordinateOfWords ws = p.coordinate := by
  have hh := hp.ra.numberIn_units (splitSign_chars hp.ra.units.valid)
  rw [chars_wholeText, if_neg Bool.false_ne_true] at hh
  cases hw with
  | six =>
    -- The sign is read with the degrees, and is found in their number again, also if that is zero.
    have hd := hp.dec.numberIn_units (p.splitSign_sign _)
    have hvalue := hasValue_wholeText hp.dec.units_le
    have hsign := DecimalText.hasMinusSign_float (wholeText p.dec.units)
    have hminus : hasMinusSign (if p.negative then -(wholeText p.dec.units).float else
        (wholeText p.dec.units).float) =
        p.negative := by
      cases p.negative with
      | false => exact hsign
      | true => exact hvalue.hasMinusSign_neg.trans (by rw [hsign, Bool.not_false])
    have habs :
        (if p.negative then -(wholeText p.dec.units).float else (wholeText p.dec.units).float).abs =
        (wholeText p.dec.units).float := by
      cases p.negative with
      | false => exact hvalue.abs_eq hsign
      | true => exact hvalue.abs_neg_eq hsign
    simp only [coordinateOfWords, p.demandSign_sign, hh, hd, hp.ra.numberIn_minutes,
      hp.ra.numberIn_seconds, hp.dec.numberIn_minutes, hp.dec.numberIn_seconds, bind,
      Except.bind, hminus, habs]
    rfl
  | letters hletters hletters' =>
    have hd := hp.dec.numberIn_units (splitSign_chars hp.dec.units.valid)
    rw [chars_wholeText, if_neg Bool.false_ne_true] at hd
    rw [coordinateOfWords, readFinite?_lettered hp.ra (by simp) hletters]
    simp only [letterCoordinate, p.demandSign_sign, p.splitSign_sign,
      letterParts?_lettered hp.ra (by simp) hletters, letterParts?_lettered hp.dec
      (by simp) hletters', hh, hd, hp.ra.numberIn_minutes, hp.ra.numberIn_seconds,
      hp.dec.numberIn_minutes, hp.dec.numberIn_seconds, bind, Except.bind]
    rfl

/-- Units below their limits make a place a coordinate; the first that is at its limit is refused.
-/
lemma SexagesimalPlace.parse_coordinate (hp : p.Valid) (hw : p.Written (words place)) :
    (p.ra.unitCount < 24 ∧ p.dec.unitCount < 90 → ∃ c, Coordinate.parse place = .ok c ∧ c.InRange) ∧
    (¬(p.ra.unitCount < 24 ∧ p.dec.unitCount < 90) → ∃ x : Float,
      HasValue x ((if p.ra.unitCount < 24 then p.dec.unitCount else p.ra.unitCount : ℕ)) ∧
      Coordinate.parse place = .error (.unitsOutOfRange x)) := by
  have hwords := p.coordinateOfWords_of_written hp.readable hw
  have hra := hp.ra.partsRead
  have hdec := hp.dec.partsRead
  refine ⟨fun ⟨hhours, hdegrees⟩ => ?_, fun hlimit => ?_⟩
  · obtain ⟨c, hc, hrange⟩ := exists_ofSexagesimal hra hdec hhours hdegrees p.negative
    exact ⟨c, Coordinate.parse_eq_ok_iff.2 ⟨hwords.trans hc, hrange⟩, hrange⟩
  · refine ⟨_, ?_, Coordinate.parse_of_error
      (hwords.trans (ofSexagesimal_error hra hdec hlimit p.negative))⟩
    split
    · exact hdec.readUnits
    · exact hra.readUnits

end Place

/-! ### Positions -/

section Position
variable {p : SexagesimalPlace} {t : SexagesimalText} {ws : List (List Char)} {c unit : Char}
  {s place : List Char}

lemma visible_of_isDigit (h : c.isDigit = true) : isBlank c = false ∧ c ≠ ':' := by
  rw [Char.isDigit, Bool.and_eq_true, decide_eq_true_eq, decide_eq_true_eq] at h
  have hlow : 48 ≤ c.toNat := UInt32.le_iff_toNat_le.1 h.1
  have hhigh : c.toNat ≤ 57 := UInt32.le_iff_toNat_le.1 h.2
  refine ⟨?_, ?_⟩
  · simp only [isBlank, Bool.or_eq_false_iff, Bool.and_eq_false_iff, decide_eq_false_iff_not,
      beq_eq_false_iff_ne]
    omega
  · rintro rfl
    exact absurd hhigh (by decide)

lemma visible_of_mem_chars {d : DecimalText} (h : d.Valid) (hc : c ∈ d.chars) :
    isBlank c = false ∧ c ≠ ':' := by
  unfold DecimalText.chars at hc
  split at hc
  · exact visible_of_isDigit (h.whole c hc)
  · rw [List.mem_append, List.mem_cons] at hc
    obtain hwhole | rfl | hfraction := hc
    · exact visible_of_isDigit (h.whole c hwhole)
    · exact ⟨rfl, by decide⟩
    · exact visible_of_isDigit (h.fraction c hfraction)

lemma visible_of_lettered (h : t.Readable) (hunit : unit ∈ ['h', 'd', 'm']) (hs : t.Lettered unit s)
    (hc : c ∈ s) :
    isBlank c = false ∧ c ≠ ':' := by
  obtain ⟨d, d', last, -, -, -, hmark, hmark', hlast⟩ := hs
  have hmark := isMark_of_mem hunit hmark
  have hmark' : IsMark 'm' d' := isMark_of_mem (by simp) hmark'
  simp only [SexagesimalText.lettered, List.mem_append, List.mem_cons] at hc
  obtain hunits | rfl | hminutes | rfl | hseconds | hmem := hc
  · exact visible_of_isDigit (h.units.digits c hunits)
  · exact ⟨hmark.visible, hmark.notColon⟩
  · exact visible_of_isDigit (h.minutes.digits c hminutes)
  · exact ⟨hmark'.visible, hmark'.notColon⟩
  · exact visible_of_mem_chars h.seconds hseconds
  · simp only [List.mem_cons, List.not_mem_nil, or_false] at hlast
    obtain rfl | rfl | rfl | rfl := hlast <;> simp at hmem <;> subst hmem <;>
      exact ⟨by decide, by decide⟩

lemma SexagesimalPlace.visible_sign (p : SexagesimalPlace) :
    isBlank p.sign = false ∧ p.sign ≠ ':' := by
  unfold SexagesimalPlace.sign
  cases p.negative <;> exact ⟨rfl, by decide⟩

lemma SexagesimalPlace.visible_of_written (hp : p.Readable) (hw : p.Written ws) (hs : s ∈ ws)
    (hc : c ∈ s) :
    isBlank c = false ∧ c ≠ ':' := by
  cases hw with
  | six =>
    simp only [List.mem_cons, List.not_mem_nil, or_false] at hs
    obtain rfl | rfl | rfl | rfl | rfl | rfl := hs
    · exact visible_of_isDigit (hp.ra.units.digits c hc)
    · exact visible_of_isDigit (hp.ra.minutes.digits c hc)
    · exact visible_of_mem_chars hp.ra.seconds hc
    · obtain rfl | hunits := List.mem_cons.1 hc
      · exact p.visible_sign
      · exact visible_of_isDigit (hp.dec.units.digits c hunits)
    · exact visible_of_isDigit (hp.dec.minutes.digits c hc)
    · exact visible_of_mem_chars hp.dec.seconds hc
  | letters hra hdec =>
    simp only [List.mem_cons, List.not_mem_nil, or_false] at hs
    obtain rfl | rfl := hs
    · exact visible_of_lettered hp.ra (by simp) hra hc
    · obtain rfl | hdec' := List.mem_cons.1 hc
      · exact p.visible_sign
      · exact visible_of_lettered hp.dec (by simp) hdec hdec'

lemma SexagesimalPlace.colon_notMem (hp : p.Readable) (hw : p.Written (words place)) :
    ':' ∉ place := by
  intro hmem
  obtain ⟨w, hword, hc⟩ := exists_mem_words hmem (by decide)
  exact (p.visible_of_written hp hw hword hc).2 rfl

/-- What stands behind a place: a radius behind a colon, if there is one. -/
def radiusSuffix (radius : Option (List Char)) : List Char := radius.elim [] (':' :: ·)

/-- The coordinate is read from what stands in front of the first colon. -/
lemma Position.parse_eq {text : String} {radius : Option (List Char)} (hcolon : ':' ∉ place)
    (htext : text.toList = place ++ radiusSuffix radius) (default : Float) :
    Position.parse default text =
      match Coordinate.parse place with
      | .ok coordinate => .ok { coordinate, radius := (radius.bind radiusIn?).getD default }
      | .error fault => .error { input := text, fault } := by
  have htrim : Coordinate.parse (trim place) = Coordinate.parse place := by
    rw [Coordinate.parse, Coordinate.parse, words_trim]
  cases radius with
  | none =>
    rw [radiusSuffix, Option.elim_none, List.append_nil] at htext
    cases hplace : Coordinate.parse place <;>
      simp [Position.parse, htext, splitOnce?_eq_none hcolon, htrim, hplace]
  | some radius =>
    rw [radiusSuffix, Option.elim_some] at htext
    cases hplace : Coordinate.parse place <;>
      simp [Position.parse, htext, splitOnce?_append hcolon, htrim, hplace]

lemma Position.exists_parse_eq {text : String} (hcolon : ':' ∉ place)
    (htext : text.toList = place ∨ ∃ radius, text.toList = place ++ ':' :: radius)
    (default : Float) :
    ∃ radius, Position.parse default text =
      match Coordinate.parse place with
      | .ok coordinate => .ok { coordinate, radius }
      | .error fault => .error { input := text, fault } := by
  obtain htext | ⟨radius, htext⟩ := htext
  · have htext : text.toList = place ++ radiusSuffix none :=
      htext.trans (List.append_nil place).symm
    exact ⟨_, Position.parse_eq hcolon htext default⟩
  · have htext : text.toList = place ++ radiusSuffix (some radius) := htext
    exact ⟨_, Position.parse_eq hcolon htext default⟩

/-- A place is a position if its hours are below 24 and its degrees below 90. -/
lemma SexagesimalPlace.parse_position {text : String} (hp : p.Valid) (hw : p.Written (words place))
    (htext : text.toList = place ∨ ∃ radius, text.toList = place ++ ':' :: radius)
    (default : Float) :
    (p.ra.unitCount < 24 ∧ p.dec.unitCount < 90 →
      ∃ position, Position.parse default text = .ok position ∧ position.coordinate.InRange) ∧
    (¬(p.ra.unitCount < 24 ∧ p.dec.unitCount < 90) → ∃ x : Float,
      HasValue x ((if p.ra.unitCount < 24 then p.dec.unitCount else p.ra.unitCount : ℕ)) ∧
      Position.parse default text = .error { input := text, fault := .unitsOutOfRange x }) := by
  obtain ⟨radius, hparse⟩ := Position.exists_parse_eq (p.colon_notMem hp.readable hw) htext default
  obtain ⟨haccept, hrefuse⟩ := p.parse_coordinate hp hw
  refine ⟨fun hlimits => ?_, fun hlimits => ?_⟩
  · obtain ⟨c, hc, hrange⟩ := haccept hlimits
    exact ⟨⟨c, radius⟩, by rw [hparse, hc], hrange⟩
  · obtain ⟨x, hx, hfault⟩ := hrefuse hlimits
    exact ⟨x, hx, by rw [hparse, hfault]⟩

/-! ### Poles -/

/-- Hours below 24, and a declination between the poles, which are 324000 arcseconds from the
equator. -/
structure SexagesimalPlace.OnSky (p : SexagesimalPlace) : Prop extends p.Valid where
  hours_lt : p.ra.unitCount < 24
  total_le : p.dec.total ≤ 324000

lemma SexagesimalText.units_le_total (t : SexagesimalText) :
    (t.unitCount * 3600 : ℚ) ≤ t.total := by
  have hminutes : (0 : ℚ) ≤ t.minuteCount := t.minuteCount.cast_nonneg
  have hseconds := t.seconds.value_nonneg
  unfold SexagesimalText.total
  linarith

lemma SexagesimalText.Valid.total_lt {t : SexagesimalText} (h : t.Valid) :
    t.total < (t.unitCount + 1) * 3600 := by
  have hminutes : (t.minuteCount : ℚ) ≤ 59 := by exact_mod_cast h.minutes_le
  have hseconds := h.seconds_le.trans_lt lastSecond_lt
  unfold SexagesimalText.total
  linarith

/-- A place near the centre of the galaxy. -/
def southernPlace : SexagesimalPlace where
  ra := ⟨"18".toList, "04".toList, ⟨"20".toList, "99".toList⟩⟩
  negative := true
  dec := ⟨"29".toList, "31".toList, ⟨"08".toList, "9".toList⟩⟩

def northPole : SexagesimalPlace where
  ra := ⟨"0".toList, "0".toList, ⟨"0".toList, []⟩⟩
  negative := false
  dec := ⟨"90".toList, "0".toList, ⟨"0".toList, []⟩⟩

lemma total_southernPlace : southernPlace.dec.total = 1062689 / 10 := by
  have hseconds : southernPlace.dec.seconds.value = (89 : ℕ) / 10 ^ 1 :=
    DecimalText.value_of_eq rfl rfl
  have hunits : southernPlace.dec.unitCount = 29 := rfl
  have hminutes : southernPlace.dec.minuteCount = 31 := rfl
  norm_num [SexagesimalText.total, hseconds, hunits, hminutes]

lemma southernPlace_onSky : southernPlace.OnSky := by
  have hra : southernPlace.ra.seconds.value = (2099 : ℕ) / 10 ^ 2 := DecimalText.value_of_eq rfl rfl
  have hdec : southernPlace.dec.seconds.value = (89 : ℕ) / 10 ^ 1 := DecimalText.value_of_eq rfl rfl
  exact ⟨⟨⟨by decide, by decide, by decide, by decide, by decide, by norm_num [hra, lastSecond]⟩,
    ⟨by decide, by decide, by decide, by decide, by decide, by norm_num [hdec, lastSecond]⟩⟩, by
    decide, by norm_num [total_southernPlace]⟩

lemma total_northPole : northPole.dec.total = 324000 := by
  have hseconds : northPole.dec.seconds.value = (0 : ℕ) / 10 ^ 0 := DecimalText.value_of_eq rfl rfl
  have hunits : northPole.dec.unitCount = 90 := rfl
  have hminutes : northPole.dec.minuteCount = 0 := rfl
  norm_num [SexagesimalText.total, hseconds, hunits, hminutes]

lemma northPole_onSky : northPole.OnSky := by
  have hra : northPole.ra.seconds.value = (0 : ℕ) / 10 ^ 0 := DecimalText.value_of_eq rfl rfl
  have hdec : northPole.dec.seconds.value = (0 : ℕ) / 10 ^ 0 := DecimalText.value_of_eq rfl rfl
  exact ⟨⟨⟨by decide, by decide, by decide, by decide, by decide, by norm_num [hra, lastSecond]⟩,
    ⟨by decide, by decide, by decide, by decide, by decide, by norm_num [hdec, lastSecond]⟩⟩, by
    decide, total_northPole.le⟩

lemma southernPlace_written : southernPlace.Written (words "18 04 20.99 -29 31 08.9".toList) := .six

lemma northPole_written : northPole.Written (words "0 0 0 +90 0 0".toList) := .six

lemma northPole_written_letters : northPole.Written (words "0h0m0s +90D0m0".toList) :=
  .letters
    (.intro 'h' 'm' ['s'] (by decide) (by decide) (by decide) (by decide) (by decide) (by decide))
    (.intro 'D' 'm' [] (by decide) (by decide) (by decide) (by decide) (by decide) (by decide))

/-- Every place between the poles is a position in either form. At a pole the degrees are found out
of range. -/
theorem Position.parse_sexagesimal {text : String} (hp : p.OnSky) (hw : p.Written (words place))
    (htext : text.toList = place ∨ ∃ radius, text.toList = place ++ ':' :: radius)
    (default : Float) :
    (p.dec.total < 324000 →
      ∃ position, Position.parse default text = .ok position ∧ position.coordinate.InRange) ∧
    (p.dec.total = 324000 → ∃ x,
      HasValue x 90 ∧ Position.parse default text =
        .error { input := text, fault := .unitsOutOfRange x }) := by
  obtain ⟨haccept, hrefuse⟩ := p.parse_position hp.toValid hw htext default
  have hlow := p.dec.units_le_total
  refine ⟨fun hlt => haccept ⟨hp.hours_lt, ?_⟩, fun heq => ?_⟩
  · have : (p.dec.unitCount : ℚ) < (90 : ℕ) := by push_cast; linarith
    exact_mod_cast this
  · -- Only ninety whole degrees make as many seconds.
    have hhigh := hp.dec.total_lt
    have hatMost : (p.dec.unitCount : ℚ) ≤ (90 : ℕ) := by push_cast; linarith
    have hatLeast : ((89 : ℕ) : ℚ) < p.dec.unitCount := by push_cast; linarith
    have hatMost : p.dec.unitCount ≤ 90 := by exact_mod_cast hatMost
    have hatLeast : 89 < p.dec.unitCount := by exact_mod_cast hatLeast
    obtain ⟨x, hx, hparse⟩ := hrefuse fun h => absurd h.2 (by omega)
    rw [if_pos hp.hours_lt, show p.dec.unitCount = 90 by omega] at hx
    exact ⟨x, by exact_mod_cast hx, hparse⟩

theorem Position.parse_sexagesimal_south :
    southernPlace.OnSky ∧ northPole.OnSky ∧
    (∃ position, Position.parse 0.5 "18 04 20.99 -29 31 08.9" = .ok position ∧
      position.coordinate.InRange) ∧
    ∃ x, HasValue x 90 ∧
      Position.parse 0.5 "0h0m0s +90D0m0:0.1" = .error ⟨"0h0m0s +90D0m0:0.1",
        .unitsOutOfRange x⟩ := by
  refine ⟨southernPlace_onSky, northPole_onSky, ?_, ?_⟩
  · exact (Position.parse_sexagesimal southernPlace_onSky southernPlace_written (.inl rfl) 0.5).1
      (by norm_num [total_southernPlace])
  · exact (Position.parse_sexagesimal northPole_onSky
      northPole_written_letters (.inr ⟨"0.1".toList, rfl⟩) 0.5).2
      total_northPole

/-- No other declination is refused, but a pole is one, in both forms. -/
theorem Position.parse_pole :
    northPole.OnSky ∧ northPole.Written (words "0 0 0 +90 0 0".toList) ∧
    northPole.Written (words "0h0m0s +90D0m0".toList) ∧
    ∀ text ∈ ["0 0 0 +90 0 0", "0h0m0s +90D0m0"], ¬∃ position,
    Position.parse 0.5 text = .ok position := by
  refine ⟨northPole_onSky, northPole_written, northPole_written_letters, fun text htext => ?_⟩
  have hlimits : ¬(northPole.ra.unitCount < 24 ∧ northPole.dec.unitCount < 90) := by decide
  have hrefused : ∃ x, Position.parse 0.5 text = .error ⟨text, .unitsOutOfRange x⟩ := by
    simp only [List.mem_cons, List.not_mem_nil, or_false] at htext
    obtain rfl | rfl := htext
    · obtain ⟨x, -, hx⟩ :=
        (northPole.parse_position northPole_onSky.toValid northPole_written
          (.inl rfl) 0.5).2 hlimits
      exact ⟨x, hx⟩
    · obtain ⟨x, -, hx⟩ :=
        (northPole.parse_position northPole_onSky.toValid northPole_written_letters
          (.inl rfl) 0.5).2 hlimits
      exact ⟨x, hx⟩
  obtain ⟨x, hx⟩ := hrefused
  rw [hx]
  nofun

end Position
end SkyResolver
