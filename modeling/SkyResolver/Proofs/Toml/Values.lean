import SkyResolver.Proofs.Toml.Texts

/-! Values in TOML: scalars, and lists of texts on one line or several. A value is read back in
front of anything that can stand behind it. -/
namespace SkyResolver.Toml
open SkyResolver.Number

/-- A value that can be written and read back: whole numbers are not too large, and doubles are
positive. -/
def Value.Readable : Value → Prop
  | .whole n => n < twoTo 63
  | .float x => 0.0 < x
  | _ => True

/-! ### Where a value starts -/

section Starts
variable {c : Char} {s r : List Char} {p : Json × List Char} {fuel : ℕ}

lemma scalar?_eq_none (hc : isWordChar c = false) (hplus : c ≠ '+') (hquote : c ≠ '"')
    (hmark : c ≠ literalMark) :
    scalar? (c :: s) = none := by
  have hword : word? (c :: s) = none := by
    rw [word?, List.takeWhile_cons_of_neg (by simp [hc])]
  unfold scalar?
  split
  · rename_i heq
    exact absurd (List.cons.inj heq).1 hplus
  · rename_i heq
    obtain ⟨rfl, -⟩ := List.cons.inj heq
    rw [if_neg, hword]
    · rfl
    · rw [Bool.or_eq_true, decide_eq_true_eq, decide_eq_true_eq]
      exact not_or.2 ⟨hquote, hmark⟩
  · rfl

/-- A scalar starts with neither a gap, nor the end of a line, nor a bracket or comment. -/
lemma exists_eq_of_scalar? (h : scalar? s = some p) :
    ∃ c t, s = c :: t ∧ isGap c = false ∧ c ≠ '\n' ∧ c ≠ '#' ∧ c ≠ '[' ∧ c ≠ ']' ∧ c ≠ '\x7b' := by
  obtain _ | ⟨c, t⟩ := s
  · cases h
  · have hne {d : Char} (hd : isWordChar d = false ∧ d ≠ '+' ∧ d ≠ '"' ∧ d ≠ literalMark) :
        c ≠ d := by
      rintro rfl
      rw [scalar?_eq_none hd.1 hd.2.1 hd.2.2.1 hd.2.2.2] at h
      cases h
    have hgap : isGap c = false := by
      rw [isGap, Bool.or_eq_false_iff, beq_eq_false_iff_ne, beq_eq_false_iff_ne]
      exact ⟨hne (by decide), hne (by decide)⟩
    exact ⟨c, t, rfl, hgap, hne (by decide), hne (by decide), hne (by decide), hne (by decide),
      hne (by decide)⟩

lemma value?_of_scalar? (h : scalar? s = some p) : value? (fuel + 1) s = some p := by
  obtain ⟨c, t, rfl, -, -, -, hbracket, -, hbrace⟩ := exists_eq_of_scalar? h
  unfold value?
  split
  · rename_i heq
    cases heq
  · rename_i heq
    exact absurd (List.cons.inj heq).1 hbracket
  · rename_i heq
    exact absurd (List.cons.inj heq).1 hbrace
  · exact h

lemma skipGap_of_not (hc : isGap c = false) : skipGap (c :: s) = c :: s := by
  rw [skipGap, List.dropWhile_cons_of_neg (by simp [hc])]

/-- Nothing is skipped in front of anything else than gaps, comments and ends of lines. -/
lemma skipLines?_of_not (hgap : isGap c = false) (hline : c ≠ '\n') (hcomment : c ≠ '#') :
    skipLines? fuel (c :: s) = some (c :: s) := by
  cases fuel with
  | zero => rfl
  | succ fuel =>
    unfold skipLines?
    rw [skipGap_of_not hgap]
    split
    · rename_i heq
      exact absurd (List.cons.inj heq).1 hline
    · rename_i heq
      exact absurd (List.cons.inj heq).1 hcomment
    · rfl

end Starts

/-! ### Lists -/

section Lists
variable {c : Char} {s r t : List Char} {p : Json × List Char} {fuel : ℕ} {item : Json}
  {items : List Json}

lemma items?_close : items? (fuel + 1) (']' :: r) = some ([], r) := by
  unfold items?
  rw [skipLines?_of_not rfl (by decide) (by decide)]
  rfl

/-- An item with a comma behind it; the lines in front of it are skipped. -/
lemma items?_item (hskip : skipLines? (s.length + 1) s = some t)
    (hitem : scalar? t = some (item, ',' :: r)) :
    items? (fuel + 2) s = (items? (fuel + 1) r).map fun (items, r) => (item :: items, r) := by
  obtain ⟨c, t', rfl, -, -, -, -, hclose, -⟩ := exists_eq_of_scalar? hitem
  have hcomma : skipLines? ((',' :: r).length + 1) (',' :: r) = some (',' :: r) :=
    skipLines?_of_not rfl (by decide) (by decide)
  rw [items?, hskip]
  simp only [Option.bind_eq_bind, Option.bind_some]
  split
  · rename_i heq
    exact absurd (List.cons.inj heq).1 hclose
  · rw [value?_of_scalar? hitem]
    simp only [Option.bind_some, hcomma]
    cases items? (fuel + 1) r <;> rfl

/-- The last item, with the bracket behind it. -/
lemma items?_last (hskip : skipLines? (s.length + 1) s = some t)
    (hitem : scalar? t = some (item, ']' :: r)) :
    items? (fuel + 2) s = some ([item], r) := by
  obtain ⟨c, t', rfl, -, -, -, -, hclose, -⟩ := exists_eq_of_scalar? hitem
  have hbracket : skipLines? ((']' :: r).length + 1) (']' :: r) = some (']' :: r) :=
    skipLines?_of_not rfl (by decide) (by decide)
  rw [items?, hskip]
  simp only [Option.bind_eq_bind, Option.bind_some]
  split
  · rename_i heq
    exact absurd (List.cons.inj heq).1 hclose
  · rw [value?_of_scalar? hitem]
    simp only [Option.bind_some, hbracket]

lemma skipLines?_lineEnd : skipLines? (fuel + 1) ('\n' :: s) = skipLines? fuel s := rfl

lemma skipLines?_of_skipGap (hskip : skipGap s = c :: t) (hline : c ≠ '\n') (hcomment : c ≠ '#') :
    skipLines? (fuel + 1) s = some (c :: t) := by
  unfold skipLines?
  rw [hskip]
  split
  · rename_i heq
    exact absurd (List.cons.inj heq).1 hline
  · rename_i heq
    exact absurd (List.cons.inj heq).1 hcomment
  · rfl

/-- A line end and an indentation in front of a scalar are skipped. -/
lemma skipLines?_indented (h : scalar? t = some p) :
    skipLines? (("\n    ".toList ++ t).length + 1) ("\n    ".toList ++ t) = some t := by
  obtain ⟨c, t, rfl, hgap, hline, hcomment, -, -, -⟩ := exists_eq_of_scalar? h
  have hindented : skipGap (' ' :: ' ' :: ' ' :: ' ' :: c :: t) = c :: t := skipGap_of_not hgap
  rw [show "\n    ".toList ++ c :: t = '\n' :: ' ' :: ' ' :: ' ' :: ' ' :: c :: t from rfl,
    List.length_cons, skipLines?_lineEnd, List.length_cons]
  exact skipLines?_of_skipGap hindented hline hcomment

/-- Texts on a line each, and the bracket on a line of its own. -/
lemma items?_lines (texts : List String) (r : List Char) (hfuel : texts.length < fuel) :
    items? fuel (texts.flatMap (fun s => "\n    ".toList ++ textChars s.toList ++ [',']) ++
      '\n' :: ']' :: r) =
      some (texts.map .string, r) := by
  induction texts generalizing fuel with
  | nil =>
    obtain ⟨fuel, rfl⟩ := Nat.exists_eq_succ_of_ne_zero (Nat.ne_zero_of_lt hfuel)
    have hskip : skipLines? (('\n' :: ']' :: r).length + 1)
        ('\n' :: ']' :: r) = some (']' :: r) := by
      rw [skipLines?_lineEnd]
      exact skipLines?_of_not rfl (by decide) (by decide)
    rw [List.flatMap_nil, List.nil_append, Nat.succ_eq_add_one, items?, hskip]
    rfl
  | cons s texts ih =>
    obtain ⟨fuel, rfl⟩ : ∃ k, fuel = k + 2 := ⟨fuel - 2, by rw [List.length_cons] at hfuel; omega⟩
    rw [List.length_cons] at hfuel
    have hitem := scalar?_textChars s.toList (c := ',')
      (r := texts.flatMap (fun s => "\n    ".toList ++ textChars s.toList ++ [',']) ++ '\n' ::
        ']' :: r) (by decide)
    rw [String.ofList_toList] at hitem
    have hskip := skipLines?_indented hitem
    rw [List.flatMap_cons, List.append_assoc, List.append_assoc, List.append_assoc,
      List.singleton_append, items?_item hskip hitem, ih (by omega)]
    rfl

lemma value?_list (h : items? fuel s = some (items, r)) :
    value? (fuel + 1) ('[' :: s) = some (.array items, r) := by
  rw [value?, h]
  rfl

lemma length_le_flatMap_lines (texts : List String) :
    texts.length ≤ (texts.flatMap fun s => "\n    ".toList ++ textChars s.toList ++
      [',']).length := by
  induction texts with
  | nil => exact le_rfl
  | cons s texts ih =>
    rw [List.flatMap_cons, List.length_append, List.length_append, List.length_cons,
      List.length_singleton]
    omega

lemma value?_texts (texts : List String) (hfuel : (Value.texts texts).chars.length < fuel) :
    value? fuel ((Value.texts texts).chars ++ r) = some (.ofTexts texts, r) := by
  obtain ⟨fuel, rfl⟩ := Nat.exists_eq_succ_of_ne_zero (Nat.ne_zero_of_lt hfuel)
  match texts with
  | [] =>
    obtain ⟨fuel, rfl⟩ : ∃ k, fuel = k + 1 := ⟨fuel - 1, by simp [Value.chars] at hfuel; omega⟩
    exact value?_list items?_close
  | [s] =>
    obtain ⟨fuel, rfl⟩ : ∃ k, fuel = k + 2 := ⟨fuel - 2, by simp [Value.chars] at hfuel; omega⟩
    have hitem := scalar?_textChars s.toList (c := ']') (r := r) (by decide)
    rw [String.ofList_toList] at hitem
    obtain ⟨c, t, heq, hgap, hline, hcomment, -, -, -⟩ := exists_eq_of_scalar? hitem
    have hskip : skipLines? ((textChars s.toList ++ ']' :: r).length + 1)
        (textChars s.toList ++ ']' :: r) =
        some (textChars s.toList ++ ']' :: r) := by
      rw [heq]
      exact skipLines?_of_not hgap hline hcomment
    rw [Value.chars, List.append_assoc, List.cons_append, List.singleton_append]
    exact value?_list (items?_last hskip hitem)
  | s₁ :: s₂ :: texts =>
    have hlength := length_le_flatMap_lines (s₁ :: s₂ :: texts)
    have hchars : (Value.texts (s₁ :: s₂ :: texts)).chars =
        '[' :: (s₁ :: s₂ :: texts).flatMap
        (fun s => "\n    ".toList ++ textChars s.toList ++ [',']) ++ ['\n', ']'] := rfl
    rw [hchars, List.length_append, List.length_cons] at hfuel
    rw [hchars, List.append_assoc, List.cons_append]
    exact value?_list (items?_lines _ r (by omega))

/-- A value is read as itself, in front of anything that can stand behind it. -/
theorem value?_chars {v : Value} (hv : v.Readable) (hc : IsEnd c) (hfuel : v.chars.length < fuel) :
    value? fuel (v.chars ++ c :: r) = some (v.toJson, c :: r) := by
  have hscalar (h : scalar? (v.chars ++ c :: r) = some (v.toJson, c :: r)) :
      value? fuel (v.chars ++ c :: r) = some (v.toJson, c :: r) := by
    obtain ⟨fuel, rfl⟩ := Nat.exists_eq_succ_of_ne_zero (Nat.ne_zero_of_lt hfuel)
    exact value?_of_scalar? h
  cases v with
  | text s =>
    have := scalar?_textChars s.toList (r := r) hc
    rw [String.ofList_toList] at this
    exact hscalar this
  | whole n => exact hscalar (scalar?_digitChars hv hc)
  | float x => exact hscalar (scalar?_floatChars hv hc)
  | bool b => exact hscalar (scalar?_bool b hc)
  | texts texts => exact value?_texts texts hfuel

/-- No carriage return is written as it is. -/
lemma return_not_mem_chars {v : Value} (hv : v.Readable) : '\r' ∉ v.chars := by
  cases v with
  | text s => exact return_not_mem_textChars _
  | whole n => exact not_mem_of_isDigit (fun d hd => isDigit_of_mem_digitChars hd) rfl
  | float x =>
    obtain rfl | ⟨b, hb, hsign, hm⟩ := positive_cases hv
    · decide +kernel
    · have hvalid := (shortest .up b).valid_pointed
      rw [Value.chars, floatChars_of_positive hb hsign hm, DecimalText.chars,
        if_neg (Decimal.fraction_pointed_ne_nil _), List.mem_append, List.mem_cons]
      exact not_or.2 ⟨not_mem_of_isDigit hvalid.whole rfl,
        not_or.2 ⟨by decide, not_mem_of_isDigit hvalid.fraction rfl⟩⟩
  | bool b => cases b <;> decide
  | texts texts =>
    obtain _ | ⟨s₁, _ | ⟨s₂, texts⟩⟩ := texts
    · decide
    · rw [Value.chars, List.mem_append, List.mem_cons]
      exact not_or.2 ⟨not_or.2 ⟨by decide, return_not_mem_textChars _⟩, by decide⟩
    · have hlines : '\r' ∉ (s₁ :: s₂ :: texts).flatMap fun s => "\n    ".toList ++
          textChars s.toList ++ [','] := by
        rw [List.mem_flatMap]
        rintro ⟨s, -, hmem⟩
        rw [List.mem_append, List.mem_append] at hmem
        exact not_or.2 ⟨not_or.2 ⟨by decide, return_not_mem_textChars _⟩, by decide⟩ hmem
      change '\r' ∉ '[' :: (s₁ :: s₂ :: texts).flatMap
        (fun s => "\n    ".toList ++ textChars s.toList ++ [',']) ++ ['\n', ']']
      rw [List.mem_append, List.mem_cons]
      exact not_or.2 ⟨not_or.2 ⟨by decide, hlines⟩, by decide⟩

end Lists
end SkyResolver.Toml
