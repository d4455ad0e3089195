import SkyResolver.Proofs.Number.Whole

/-! Texts of digits. A decimal number without an exponent is read as the double that is nearest to
it, and the digits of a number are read as the number. -/
namespace SkyResolver.Number

/-! ### Leading digits -/

lemma digitRun_append {s r : List Char} (h : ∀ c ∈ s, c.isDigit = true)
    (hr : ∀ c ∈ r.head?, c.isDigit = false) :
    digitRun (s ++ r) = (s, r) := by
  rw [digitRun, List.takeWhile_append_of_pos h, List.dropWhile_append_of_pos h]
  cases r with
  | nil => simp
  | cons c r => simp [hr c rfl]

lemma digitRun_self {s : List Char} (h : ∀ c ∈ s, c.isDigit = true) : digitRun s = (s, []) := by
  simpa using digitRun_append h (r := []) nofun

lemma splitSign_of_isDigit {c : Char} (s : List Char) (h : c.isDigit = true) :
    splitSign (c :: s) = (false, c :: s) := by
  unfold splitSign
  split
  · rename_i heq
    cases heq
    cases h
  · rename_i heq
    cases heq
    cases h
  · rfl

lemma toLower_of_isDigit {c : Char} (h : c.isDigit = true) : c.toLower = c := by
  rw [Char.toLower, dif_neg]
  rintro ⟨hletter, -⟩
  rw [Char.isDigit, Bool.and_eq_true, decide_eq_true_eq, decide_eq_true_eq] at h
  exact absurd (UInt32.le_trans hletter h.2) (by decide)

/-- A text that starts with a digit behind its sign is no word for a number. -/
lemma readFloat?_of_isDigit {s t : List Char} {negative : Bool} {c : Char}
    (hs : splitSign s = (negative, c :: t)) (hc : c.isDigit = true) :
    readFloat? s = (decimal? (c :: t)).map fun d => if negative then -scaledFloat d.1 d.2 else
    scaledFloat d.1 d.2 := by
  have hword (first : Char) (letters : List Char) (hfirst : first.isDigit = false) :
      ((c :: t).map Char.toLower == first :: letters) = false := by
    rw [List.map_cons, toLower_of_isDigit hc, List.cons_beq_cons]
    have : (c == first) = false := by
      rw [beq_eq_false_iff_ne]
      rintro rfl
      rw [hc] at hfirst
      cases hfirst
    rw [this, Bool.false_and]
  have hinf : ((c :: t).map Char.toLower == "inf".toList) = false := hword 'i' _ rfl
  have hinfinity : ((c :: t).map Char.toLower == "infinity".toList) = false := hword 'i' _ rfl
  have hnan : ((c :: t).map Char.toLower == "nan".toList) = false := hword 'n' _ rfl
  rw [readFloat?, hs]
  dsimp only
  rw [hinf, hinfinity, hnan]
  simp only [Bool.or_self, Bool.false_eq_true, if_false, Option.map_map]
  rfl

/-! ### Decimal texts -/

/-- Digits, and a point with a fraction if there is one. -/
structure DecimalText where
  whole : List Char
  fraction : List Char

namespace DecimalText

def chars (d : DecimalText) : List Char :=
  if d.fraction = [] then d.whole else d.whole ++ '.' :: d.fraction

def value (d : DecimalText) : ℚ :=
  natOfDigits (d.whole ++ d.fraction) * 10 ^ (-(d.fraction.length : ℤ))

/-- All characters but the point are digits, and one stands in front of the point. -/
structure Valid (d : DecimalText) : Prop where
  nonempty : d.whole ≠ []
  whole : ∀ c ∈ d.whole, c.isDigit = true
  fraction : ∀ c ∈ d.fraction, c.isDigit = true

instance (d : DecimalText) : Decidable d.Valid :=
  decidable_of_iff (d.whole ≠ [] ∧ d.whole.all Char.isDigit = true ∧
    d.fraction.all Char.isDigit = true)
    ⟨fun h => ⟨h.1, List.all_eq_true.1 h.2.1, List.all_eq_true.1 h.2.2⟩,
      fun h => ⟨h.nonempty, List.all_eq_true.2 h.whole, List.all_eq_true.2 h.fraction⟩⟩

variable {d : DecimalText}

lemma value_of_eq {n k : ℕ} (hn : natOfDigits (d.whole ++ d.fraction) = n)
    (hk : d.fraction.length = k) :
    d.value = n / 10 ^ k := by
  rw [value, hn, hk, zpow_neg, zpow_natCast, div_eq_mul_inv]

lemma value_nonneg (d : DecimalText) : 0 ≤ d.value :=
  mul_nonneg (Nat.cast_nonneg _) (zpow_nonneg (by norm_num) _)

lemma decimal?_chars (h : d.Valid) :
    decimal? d.chars = some (natOfDigits (d.whole ++ d.fraction), -(d.fraction.length : ℤ)) := by
  have hwhole : d.whole.isEmpty = false := by simpa using h.nonempty
  by_cases hfraction : d.fraction = []
  · rw [chars, if_pos hfraction, decimal?, digitRun_self h.whole]
    simp [hwhole, hfraction, exponent?]
  · rw [chars, if_neg hfraction, decimal?, digitRun_append h.whole (by simp)]
    simp [hwhole, digitRun_self h.fraction, exponent?]

lemma exists_chars_eq (h : d.Valid) : ∃ c s, d.chars = c :: s ∧ c.isDigit = true := by
  obtain ⟨c, s, hs⟩ := List.exists_cons_of_ne_nil h.nonempty
  have hc := h.whole c (by simp [hs])
  unfold chars
  split
  · exact ⟨c, s, hs, hc⟩
  · exact ⟨c, s ++ '.' :: d.fraction, by rw [hs, List.cons_append], hc⟩

/-- The double that the text stands for. -/
def float (d : DecimalText) : Float :=
  scaledFloat (natOfDigits (d.whole ++ d.fraction)) (-(d.fraction.length : ℤ))

lemma hasValue_float (hbound : nearest d.value < 2 ^ (1024 : ℤ)) :
    HasValue d.float (nearest d.value) :=
  hasValue_scaledFloat hbound

lemma readFloat?_of_splitSign (h : d.Valid) {s : List Char} {negative : Bool}
    (hs : splitSign s = (negative, d.chars)) :
    readFloat? s = some (if negative then -d.float else d.float) := by
  obtain ⟨c, t, hchars, hc⟩ := exists_chars_eq h
  rw [readFloat?_of_isDigit (hchars ▸ hs) hc, ← hchars, decimal?_chars h]
  rfl

/-- A decimal number that is not too large is read as the nearest double, behind whatever sign. -/
theorem readFinite?_of_splitSign (h : d.Valid) (hbound : nearest d.value < 2 ^ (1024 : ℤ))
    {s : List Char} {negative : Bool} (hs : splitSign s = (negative, d.chars)) :
    readFinite? s = some (if negative then -d.float else d.float) := by
  have hvalue := hasValue_float hbound
  rw [readFinite?, readFloat?_of_splitSign h hs, Option.filter_eq_some_iff]
  refine ⟨rfl, isFinite_iff.2 ?_⟩
  cases negative with
  | false => exact ⟨_, hvalue⟩
  | true => exact ⟨_, hvalue.neg⟩

end DecimalText

/-! ### Digits of whole numbers -/

lemma natOfDigits_eq (s : List Char) : natOfDigits s = Nat.ofDigitChars 10 s 0 := rfl

lemma natOfDigits_append (s t : List Char) :
    natOfDigits (s ++ t) = natOfDigits s * 10 ^ t.length + natOfDigits t := by
  rw [natOfDigits_eq, Nat.ofDigitChars_append, Nat.ofDigitChars_eq_ofDigitChars_zero,
    natOfDigits_eq, natOfDigits_eq, Nat.mul_comm]

lemma natOfDigits_lt {s : List Char} (h : ∀ c ∈ s, c.isDigit = true) :
    natOfDigits s < 10 ^ s.length := by
  induction s using List.reverseRecOn with
  | nil => exact one_pos
  | append_singleton s c ih =>
    have hs := ih fun d hd => h d (List.mem_append_left _ hd)
    have hc : natOfDigits [c] ≤ 9 := by
      have hdigit := h c (by simp)
      rw [Char.isDigit, Bool.and_eq_true, decide_eq_true_eq, decide_eq_true_eq] at hdigit
      have hhigh : c.toNat ≤ 57 := UInt32.le_iff_toNat_le.1 hdigit.2
      have hvalue : natOfDigits [c] = c.toNat - 48 := Nat.zero_add _
      omega
    rw [natOfDigits_append, List.length_append, List.length_singleton, pow_one, pow_succ]
    omega

lemma DecimalText.Valid.value_lt {d : DecimalText} (h : d.Valid) :
    d.value < 10 ^ d.whole.length := by
  have hlt := natOfDigits_lt (List.forall_mem_append.2 ⟨h.whole, h.fraction⟩)
  have hlt : (natOfDigits (d.whole ++ d.fraction) : ℚ) < 10 ^ d.whole.length * 10 ^
      d.fraction.length := by
    rw [List.length_append, pow_add] at hlt
    exact_mod_cast hlt
  rw [DecimalText.value, zpow_neg, zpow_natCast, ← div_eq_mul_inv, div_lt_iff₀ (by positivity)]
  exact hlt

lemma natOfDigits_padZeros_digitChars (width n : ℕ) :
    natOfDigits (padZeros width (digitChars n)) = n := by
  rw [padZeros, natOfDigits_append, natOfDigits_eq, natOfDigits_eq, Nat.ofDigitChars_replicate_zero,
    Nat.mul_zero, Nat.zero_mul, Nat.zero_add]
  exact Nat.ofDigitChars_ten_toDigits

lemma isDigit_of_mem_padZeros {width n : ℕ} {c : Char} (h : c ∈ padZeros width (digitChars n)) :
    c.isDigit = true := by
  rw [padZeros, List.mem_append] at h
  obtain h | h := h
  · rw [(List.mem_replicate.1 h).2]
    rfl
  · exact Nat.isDigit_of_mem_toDigits (by norm_num) (by norm_num) h

lemma length_padZeros {width n : ℕ} (hwidth : 0 < width) (h : n < 10 ^ width) :
    (padZeros width (digitChars n)).length = width := by
  have := (Nat.length_toDigits_le_iff (b := 10) (n := n) (by norm_num) hwidth).2 h
  rw [padZeros, List.length_append, List.length_replicate, digitChars]
  omega

end SkyResolver.Number
