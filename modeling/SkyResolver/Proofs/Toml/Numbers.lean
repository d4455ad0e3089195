import SkyResolver.Toml.Reader
import SkyResolver.Toml.Writer
import SkyResolver.Proofs.Number.Positional

/-! Numbers and truth values in TOML. What is written for one of them is read back in front of
anything that can stand behind a value. -/
namespace SkyResolver.Toml
open SkyResolver.Number SkyResolver.Text

/-- A character that stands behind a value. -/
def IsEnd (c : Char) : Prop := c = '\n' ∨ c = ',' ∨ c = ']'

instance (c : Char) : Decidable (IsEnd c) := inferInstanceAs (Decidable (_ ∨ _ ∨ _))

/-! ### Words of digits -/

section Digits
variable {c : Char} {s r : List Char} {n : ℕ}

lemma digit?_of_isDigit (h : c.isDigit = true) : digit? 10 c = some (c.toNat - '0'.toNat) := by
  rw [Char.isDigit, Bool.and_eq_true, decide_eq_true_eq, decide_eq_true_eq] at h
  have hhigh : c.toNat ≤ 57 := UInt32.le_iff_toNat_le.1 h.2
  have hrange : ('0' ≤ c && c ≤ '9') = true := by
    rw [Bool.and_eq_true, decide_eq_true_eq, decide_eq_true_eq]
    exact h
  have hhex : Json.hexDigit? c = some (c.toNat - '0'.toNat) := if_pos hrange
  have hsmall : c.toNat - '0'.toNat < 10 := by
    rw [show '0'.toNat = 48 from rfl]
    omega
  rw [digit?, hhex, Option.filter_some, if_pos (by simpa using hsmall)]

lemma isWordChar_of_isDigit (h : c.isDigit = true) : isWordChar c = true := by
  rw [isWordChar, Char.isAlphanum, h, Bool.or_true, Bool.true_or, Bool.true_or]

lemma not_mem_of_isDigit (hs : ∀ d ∈ s, d.isDigit = true) (hc : c.isDigit = false) : c ∉ s :=
  fun hmem => by
  rw [hs c hmem] at hc
  cases hc

lemma splitAt_of_not_mem (h : c ∉ s) : splitAt c s = [s] := by
  induction s with
  | nil => rfl
  | cons d s ih =>
    obtain ⟨hd, hs⟩ := not_or.1 (List.mem_cons.not.1 h)
    rw [splitAt, if_neg (Ne.symm hd), ih hs]

lemma isPart_of_isDigit (h : c.isDigit = true) : ((digit? 10 c).isSome || c == '_') = true := by
  rw [digit?_of_isDigit h]
  rfl

lemma digits?_self (leadingZeros : Bool) (hne : s ≠ []) (hs : ∀ d ∈ s, d.isDigit = true)
    (hzero : leadingZeros = true ∨ (s.head? = some '0' → s.length = 1)) :
    digits? 10 leadingZeros s = some (s, []) := by
  have hunderscore : '_' ∉ s := not_mem_of_isDigit hs rfl
  have hrun : s.takeWhile (fun c => (digit? 10 c).isSome || c == '_') = s :=
    List.takeWhile_eq_self_iff.2 fun d hd => isPart_of_isDigit (hs d hd)
  have hrest : s.dropWhile (fun c => (digit? 10 c).isSome || c == '_') = [] :=
    List.dropWhile_eq_nil_iff.2 fun d hd => isPart_of_isDigit (hs d hd)
  have hdigits : s.filter (· != '_') = s :=
    List.filter_eq_self.2 fun d hd => bne_iff_ne.2 (ne_of_mem_of_not_mem hd hunderscore)
  have hempty : s.isEmpty = false := by simpa using hne
  have hleading : (!leadingZeros && s.head? == some '0' && s.length != 1) = false := by
    obtain rfl | hzero := hzero
    · rfl
    · by_cases hhead : s.head? = some '0'
      · rw [hzero hhead, bne_self_eq_false, Bool.and_false]
      · rw [beq_eq_false_iff_ne.2 hhead, Bool.and_false, Bool.false_and]
  simp only [digits?, hrun, hrest, hdigits, hempty, splitAt_of_not_mem hunderscore, hleading,
    List.all_cons, List.all_nil, Bool.not_false, Bool.and_true, Bool.not_true, Bool.or_self,
    Bool.false_eq_true, if_false]

lemma foldl_digits_eq (hs : ∀ d ∈ s, d.isDigit = true) (n : ℕ) :
    s.foldl (fun n c => 10 * n + (digit? 10 c).getD 0) n =
      s.foldl (fun n c => 10 * n + (c.toNat - '0'.toNat)) n := by
  induction s generalizing n with
  | nil => rfl
  | cons c s ih =>
    rw [List.foldl_cons, List.foldl_cons, digit?_of_isDigit (hs c (by simp)), Option.getD_some]
    exact ih (fun d hd => hs d (List.mem_cons_of_mem _ hd)) _

lemma splitMinus_of_isDigit (hs : ∀ d ∈ s, d.isDigit = true) : splitMinus s = (false, s) := by
  unfold splitMinus
  split
  · exact absurd (hs '-' (by simp)) (by decide)
  · rfl

lemma whole?_digitChars (hn : n < twoTo 63) : whole? 10 (digitChars n) = some (n : ℤ) := by
  have hdigits : ∀ d ∈ digitChars n, d.isDigit = true := fun d hd => isDigit_of_mem_digitChars hd
  have hzero : (digitChars n).head? = some '0' → (digitChars n).length = 1 := by
    intro hhead
    obtain rfl | hne := eq_or_ne n 0
    · rfl
    · exact absurd hhead (head?_digitChars_ne hne)
  have hbounds : (lowestInt 64 ≤ (n : ℤ) && (n : ℤ) ≤ highestInt 64) = true := by
    have hlow : lowestInt 64 ≤ 0 := by decide
    have hhigh : highestInt 64 = (twoTo 63 : ℤ) - 1 := rfl
    rw [Bool.and_eq_true, decide_eq_true_eq, decide_eq_true_eq]
    omega
  have hvalue := foldl_digits_eq hdigits 0
  rw [show (digitChars n).foldl (fun n c => 10 * n + (c.toNat - '0'.toNat)) 0 = n from
    natOfDigits_digitChars n] at hvalue
  have hread := digits?_self false (digitChars_ne_nil n) hdigits (.inr hzero)
  simp only [whole?, if_pos, splitMinus_of_isDigit hdigits, bne_self_eq_false, hread,
    Option.bind_eq_bind, Option.bind_some, hvalue, List.isEmpty_nil, Bool.not_true,
    Bool.false_eq_true, if_false, hbounds]

/-! ### Words in front of something else -/

lemma word?_append (hne : s ≠ []) (hs : ∀ d ∈ s, isWordChar d = true) (hc : isWordChar c = false) :
    word? (s ++ c :: r) = some (s, c :: r) := by
  have htake : (s ++ c :: r).takeWhile isWordChar = s := by
    rw [List.takeWhile_append_of_pos hs, List.takeWhile_cons_of_neg (by simp [hc]), List.append_nil]
  have hdrop : (s ++ c :: r).dropWhile isWordChar = c :: r := by
    rw [List.dropWhile_append_of_pos hs, List.dropWhile_cons_of_neg (by simp [hc])]
  obtain ⟨d, s, rfl⟩ := List.exists_cons_of_ne_nil hne
  unfold word?
  rw [htake, hdrop]

lemma cutAt?_singleton_eq_none (h : c ∉ s) : cutAt? [c] s = none := by
  induction s with
  | nil => rfl
  | cons d s ih =>
    obtain ⟨hd, hs⟩ := not_or.1 (List.mem_cons.not.1 h)
    rw [cutAt?, afterPrefix?, if_neg hd, ih hs]
    rfl

lemma isDateWord_of_isDigit (hs : ∀ d ∈ s, d.isDigit = true) : isDateWord s = false := by
  have hT := cutAt?_singleton_eq_none (not_mem_of_isDigit hs (c := 'T') rfl)
  have ht := cutAt?_singleton_eq_none (not_mem_of_isDigit hs (c := 't') rfl)
  have hminus : s.tail.contains '-' = false := by
    rw [List.contains_eq_mem, decide_eq_false_iff_not]
    exact fun hmem => not_mem_of_isDigit hs rfl (List.mem_of_mem_tail hmem)
  unfold isDateWord
  dsimp only
  rw [show "T".toList = ['T'] from rfl, show "t".toList = ['t'] from rfl, hT, ht, hminus]
  rfl

end Digits

/-! ### Scalars -/

section Scalars
variable {c : Char} {s r : List Char} {n : ℕ} {x : Float}

lemma IsEnd.isWordChar_eq (hc : IsEnd c) : isWordChar c = false := by
  obtain rfl | rfl | rfl := hc <;> rfl

lemma IsEnd.ne_colon (hc : IsEnd c) : c ≠ ':' := by
  obtain rfl | rfl | rfl := hc <;> decide

lemma beq_eq_false_of_isDigit (letters : List Char) (hs : ∀ d ∈ s, d.isDigit = true)
    (hletters : letters.head?.any (fun d => !d.isDigit) = true) : (s == letters) = false := by
  rw [beq_eq_false_iff_ne]
  rintro rfl
  obtain ⟨d, hd, hnot⟩ := (Option.any_eq_true ..).1 hletters
  rw [hs d (List.mem_of_mem_head? hd)] at hnot
  cases hnot

lemma scalar?_of_isDigit (hne : s ≠ []) (hs : ∀ d ∈ s, d.isDigit = true) (hc : isWordChar c = false)
    (hcolon : c ≠ ':') : scalar? (s ++ c :: r) = number? s (c :: r) := by
  have hword := word?_append (r := r) hne (fun d hd => isWordChar_of_isDigit (hs d hd)) hc
  have htrue := beq_eq_false_of_isDigit "true".toList hs rfl
  have hfalse := beq_eq_false_of_isDigit "false".toList hs rfl
  obtain ⟨d, t, rfl⟩ := List.exists_cons_of_ne_nil hne
  have hd : d.isDigit = true := hs d (by simp)
  have hne {e : Char} (he : e.isDigit = false) : d ≠ e := by
    rintro rfl
    rw [hd] at he
    cases he
  unfold scalar?
  split
  · rename_i heq
    exact absurd (List.cons.inj heq).1 (hne rfl)
  · rename_i heq
    obtain ⟨rfl, -⟩ := List.cons.inj heq
    have hquote : (decide (d = '"') || decide (d = literalMark)) = false := by
      rw [Bool.or_eq_false_iff, decide_eq_false_iff_not, decide_eq_false_iff_not]
      exact ⟨hne rfl, hne rfl⟩
    rw [hquote, if_neg Bool.false_ne_true, hword]
    dsimp only [Option.bind_eq_bind, Option.bind_some]
    rw [htrue, hfalse, hd, Bool.or_true, numberOrDate?, isDateWord_of_isDigit hs]
    simp only [Bool.false_eq_true, if_false, if_true]
    exact fun _ heq => hcolon (List.cons.inj heq).1
  · rename_i heq
    cases heq

lemma contains_eq_false_of_isDigit (hs : ∀ d ∈ s, d.isDigit = true) (hc : c.isDigit = false) :
    s.contains c = false := by
  rw [List.contains_eq_mem, decide_eq_false_iff_not]
  exact not_mem_of_isDigit hs hc

/-- A word of digits is no number to another base, and it has no exponent. -/
lemma number?_of_isDigit (hs : ∀ d ∈ s, d.isDigit = true) : number? s r =
    match r with
    | '.' :: r => do
      let (fraction, r) ← word? r
      let (x, r) ← float? s (some fraction) r
      some (.number (.float x), r)
    | _ => (whole? 10 s).map fun n => (.number (.int n), r) := by
  unfold number?
  split
  · exact absurd (hs 'x' (by simp)) (by decide)
  · exact absurd (hs 'o' (by simp)) (by decide)
  · exact absurd (hs 'b' (by simp)) (by decide)
  · have hinf := beq_eq_false_of_isDigit "inf".toList hs rfl
    have hnan := beq_eq_false_of_isDigit "nan".toList hs rfl
    rw [contains_eq_false_of_isDigit hs rfl, contains_eq_false_of_isDigit hs rfl,
      splitMinus_of_isDigit hs]
    dsimp only
    rw [hinf, hnan]
    rfl

lemma scalar?_digitChars (hn : n < twoTo 63) (hc : IsEnd c) :
    scalar? (digitChars n ++ c :: r) = some (.ofNat n, c :: r) := by
  have hdigits : ∀ d ∈ digitChars n, d.isDigit = true := fun d hd => isDigit_of_mem_digitChars hd
  rw [scalar?_of_isDigit (digitChars_ne_nil n) hdigits hc.isWordChar_eq hc.ne_colon,
    number?_of_isDigit hdigits, whole?_digitChars hn]
  obtain rfl | rfl | rfl := hc <;> rfl

/-- The words on both sides of the point of a decimal number. -/
lemma float?_of_valid {d : DecimalText} (hvalid : d.Valid) (hfraction : d.fraction ≠ [])
    (hzero : d.whole.head? = some '0' → d.whole.length = 1)
    (hbound : nearest d.value < 2 ^ (1024 : ℤ)) :
    float? d.whole (some d.fraction) r = some (d.float, r) := by
  have hwhole := digits?_self false hvalid.nonempty hvalid.whole (.inr hzero)
  have hplaces := digits?_self true hfraction hvalid.fraction (.inl rfl)
  have hchars : d.whole ++ '.' :: d.fraction ++ [] = d.chars := by
    rw [DecimalText.chars, if_neg hfraction, List.append_nil]
  have hsign : splitSign d.chars = (false, d.chars) := by
    obtain ⟨c, s, hs, hc⟩ := DecimalText.exists_chars_eq hvalid
    rw [hs, splitSign_of_isDigit s hc]
  have hread := DecimalText.readFinite?_of_splitSign hvalid hbound hsign
  rw [if_neg Bool.false_ne_true] at hread
  rw [float?, splitMinus_of_isDigit hvalid.whole]
  simp only [hwhole, hplaces, exponentText?, Option.bind_eq_bind, Option.bind_some,
    List.isEmpty_nil, if_true, Bool.false_eq_true, if_false, List.nil_append, hchars, hread]

lemma floatChars_of_positive {b : Binary} (hb : Binary.ofFloat? x = some b)
    (hsign : b.negative = false) (hm : 0 < b.mantissa) :
    floatChars x = (shortest .up b).pointed.chars := by
  have hvalue := hasValue_value hb
  rw [floatChars, hvalue.isNaN_eq, if_neg Bool.false_ne_true, isFinite_iff.2 ⟨_, hvalue⟩,
    plain_of_positive hb hsign hm, Decimal.chars_pointed]
  cases hpoint : (positional [] (shortest .up b)).contains '.' with
  | true => simp only [hpoint, Bool.not_true, Bool.and_false, Bool.false_eq_true, if_false, if_true]
  | false => simp only [hpoint, Bool.not_false, Bool.and_true, Bool.false_eq_true,
      if_false, if_true]

/-- A positive double is read as itself. -/
lemma scalar?_floatChars (hx : 0.0 < x) (hc : IsEnd c) :
    scalar? (floatChars x ++ c :: r) = some (.number (.float x), c :: r) := by
  obtain rfl | ⟨b, hb, hsign, hm⟩ := positive_cases hx
  · have hinfinity : floatChars (1.0 / 0.0) = ['i', 'n', 'f'] := by decide +kernel
    rw [hinfinity]
    obtain rfl | rfl | rfl := hc <;> rfl
  · have hvalid := (shortest .up b).valid_pointed
    have hfraction := (shortest .up b).fraction_pointed_ne_nil
    have hzero := Decimal.length_whole_pointed (nearest_shortest .up (canonical_ofFloat? hb) hm).1
    obtain ⟨hbound, hfloat⟩ := float_pointed_shortest .up hb hsign hm
    have hword :=
      word?_append (r := r) hfraction (fun d hd => isWordChar_of_isDigit (hvalid.fraction d hd))
      hc.isWordChar_eq
    rw [floatChars_of_positive hb hsign hm, DecimalText.chars, if_neg hfraction, List.append_assoc,
      List.cons_append, scalar?_of_isDigit hvalid.nonempty hvalid.whole rfl (by decide),
      number?_of_isDigit hvalid.whole]
    simp only [hword, Option.bind_eq_bind, Option.bind_some,
      float?_of_valid hvalid hfraction hzero hbound, hfloat]

lemma scalar?_bool (b : Bool) (hc : IsEnd c) :
    scalar? ((if b then "true".toList else "false".toList) ++ c :: r) = some (.bool b, c :: r) := by
  obtain rfl | rfl | rfl := hc <;> cases b <;> rfl

end Scalars

end SkyResolver.Toml
