import SkyResolver.Proofs.Toml.Numbers

/-! Texts in TOML. A text is read back in every style: between one mark or three, with escapes or
without. Behind it stands something that is no mark. -/
namespace SkyResolver.Toml
open SkyResolver.Number

/-! ### The characters of a string -/

section Characters
variable {kind : StringKind} {c : Char} {s r : List Char} {fuel : ℕ}

lemma closing?_of_ne (hc : c ≠ kind.mark) : closing? kind (c :: r) = none := by
  have hmarks : (c :: r).takeWhile (· == kind.mark) = [] :=
    List.takeWhile_cons_of_neg (by simpa using hc)
  rw [closing?, hmarks]
  cases kind.multiline <;> rfl

/-- The marks at the end of a string, with something else behind them. -/
def closingMarks (kind : StringKind) : List Char :=
  List.replicate (if kind.multiline then 3 else 1) kind.mark

lemma closing?_closingMarks (hc : c ≠ kind.mark) :
    closing? kind (closingMarks kind ++ c :: r) = some ([], c :: r) := by
  have hrun (k : ℕ) : (List.replicate k kind.mark ++ c :: r).takeWhile (· == kind.mark) =
      List.replicate k kind.mark := by
    rw [List.takeWhile_append_of_pos (by simp), List.takeWhile_cons_of_neg (by simpa using hc),
      List.append_nil]
  rw [closing?, closingMarks, hrun, List.length_replicate]
  cases kind.multiline <;> rfl

lemma stringBody?_of_closing (h : closing? kind s = some ([], r)) :
    stringBody? kind (fuel + 1) s = some ([], r) := by
  unfold stringBody?
  rw [h]

lemma stringBody?_lineEnd (hopen : closing? kind ('\n' :: s) = none)
    (hmultiline : kind.multiline = true) :
    stringBody? kind (fuel + 1) ('\n' :: s) = (stringBody? kind fuel s).map fun (body,
      r) => ('\n' :: body, r) := by
  rw [stringBody?, hopen]
  dsimp only
  rw [if_pos rfl, if_pos hmultiline]

lemma stringBody?_plain (hopen : closing? kind (c :: s) = none) (hline : c ≠ '\n')
    (hescape : kind.escapes = true → c ≠ '\\') (hprintable : isPrintable c = true)
    (hdelete : c ≠ '\x7f') :
    stringBody? kind (fuel + 1) (c :: s) = (stringBody? kind fuel s).map fun (body,
      r) => (c :: body, r) := by
  have hescape' : (kind.escapes && c == '\\') = false := by
    cases hkind : kind.escapes with
    | false => rfl
    | true => simpa using hescape hkind
  rw [stringBody?, hopen]
  dsimp only
  rw [if_neg hline, hescape', if_neg Bool.false_ne_true, if_pos]
  rw [hprintable, Bool.true_and, bne_iff_ne]
  exact hdelete

lemma stringBody?_escape {d : Char} {e : List Char} (hmark : kind.mark ≠ '\\')
    (hescapes : kind.escapes = true) (hgap : isGap d = false) (hline : d ≠ '\n')
    (hread : escaped? (d :: e) = some (c, s)) :
    stringBody? kind (fuel + 1) ('\\' :: d :: e) = (stringBody? kind fuel s).map fun (body,
      r) => (c :: body, r) := by
  have hjoin : afterJoin? (d :: e) = none := by
    rw [afterJoin?, skipGap, List.dropWhile_cons_of_neg (by simp [hgap])]
    split
    · rename_i heq
      exact absurd (List.cons.inj heq).1 hline
    · rfl
  rw [stringBody?, closing?_of_ne hmark.symm]
  dsimp only
  rw [if_neg (by decide), hescapes, hjoin, ite_self]
  rw [if_pos (by rfl)]
  dsimp only
  rw [hread, Option.bind_eq_bind, Option.bind_some]
  cases stringBody? kind fuel s <;> rfl

end Characters

/-! ### Texts with escapes -/

/-- The kind of a string with escapes. -/
def escapedKind (multiline : Bool) : StringKind := ⟨'"', true, multiline⟩

section Escapes
variable {multiline : Bool} {c : Char} {s r : List Char} {fuel : ℕ}

/-- The hexadecimal digits of a character that is escaped by its number. -/
def unitDigits (c : Char) : List Char := padZeros 4 ((Nat.toDigits 16 c.toNat).map Char.toUpper)

lemma unitDigits_spec (h : c.toNat < 128) : (unitDigits c).length = 4 ∧
    (unitDigits c).foldlM (fun n c => (Json.hexDigit? c).map (16 * n + ·)) 0 = some c.toNat := by
  have hall : ∀ k : Fin 128, (unitDigits (Char.ofNat k)).length = 4 ∧
      (unitDigits (Char.ofNat k)).foldlM (fun n c => (Json.hexDigit? c).map (16 * n + ·)) 0 =
      some k.val := by
    decide +kernel
  simpa using hall ⟨c.toNat, h⟩

lemma escaped?_unitDigits (h : c.toNat < 128) :
    escaped? ('u' :: unitDigits c ++ r) = some (c, r) := by
  obtain ⟨hlength, hvalue⟩ := unitDigits_spec h
  have htake : (unitDigits c ++ r).take 4 = unitDigits c := List.take_left' hlength
  have hdrop : (unitDigits c ++ r).drop 4 = r := List.drop_left' hlength
  have hvalid : c.toNat.isValidChar := c.valid
  rw [List.cons_append, escaped?, hexChar?]
  dsimp only
  rw [htake, hdrop, hlength, hvalue, bne_self_eq_false, if_neg Bool.false_ne_true,
    Option.bind_eq_bind, Option.bind_some, dif_pos hvalid]
  rfl

lemma toNat_lt_of_isControl (h : (decide (c.toNat < 0x20) || decide (c = '\x7f')) = true) :
    c.toNat < 128 := by
  rw [Bool.or_eq_true, decide_eq_true_eq, decide_eq_true_eq] at h
  obtain hlt | rfl := h
  · omega
  · decide

/-- The step of the reader over one character of a text with escapes. -/
lemma stringBody?_escapedChar (c : Char) :
    stringBody? (escapedKind multiline) (fuel + 1) (escapedChar multiline c ++ s) =
    (stringBody? (escapedKind multiline) fuel s).map fun (body, r) => (c :: body, r) := by
  have hmark : (escapedKind multiline).mark ≠ '\\' := show '"' ≠ '\\' by decide
  unfold escapedChar
  split_ifs with hb ht hn hmultiline hf hr hquote hescape hcontrol
  · rw [hb]
    exact stringBody?_escape hmark rfl rfl (by decide) rfl
  · rw [ht]
    exact stringBody?_escape hmark rfl rfl (by decide) rfl
  · rw [hn]
    exact stringBody?_lineEnd (closing?_of_ne (show '\n' ≠ '"' by decide)) hmultiline
  · rw [hn]
    exact stringBody?_escape hmark rfl rfl (by decide) rfl
  · rw [hf]
    exact stringBody?_escape hmark rfl rfl (by decide) rfl
  · rw [hr]
    exact stringBody?_escape hmark rfl rfl (by decide) rfl
  · rw [hquote]
    exact stringBody?_escape hmark rfl rfl (by decide) rfl
  · rw [hescape]
    exact stringBody?_escape hmark rfl rfl (by decide) rfl
  · exact stringBody?_escape hmark rfl rfl (by decide)
      (escaped?_unitDigits (toNat_lt_of_isControl hcontrol))
  · rw [Bool.or_eq_true, decide_eq_true_eq, decide_eq_true_eq] at hcontrol
    obtain ⟨hlow, hdelete⟩ := not_or.1 hcontrol
    have hprintable : isPrintable c = true := by
      rw [isPrintable, Bool.or_eq_true, decide_eq_true_eq]
      exact .inr (not_lt.1 hlow)
    exact stringBody?_plain (closing?_of_ne hquote) hn (fun _ => hescape) hprintable hdelete

lemma length_le_flatMap_escapedChar (multiline : Bool) (s : List Char) :
    s.length ≤ (s.flatMap (escapedChar multiline)).length := by
  induction s with
  | nil => exact le_rfl
  | cons c s ih =>
    have hpos : 1 ≤ (escapedChar multiline c).length := by
      unfold escapedChar
      split_ifs <;> simp
    rw [List.flatMap_cons, List.length_append, List.length_cons]
    omega

/-- The characters of a text with escapes, up to the marks behind it. -/
lemma stringBody?_flatMap_escapedChar {t : List Char}
    (ht : closing? (escapedKind multiline) t = some ([], r)) (hfuel : s.length < fuel) :
    stringBody? (escapedKind multiline) fuel (s.flatMap (escapedChar multiline) ++ t) =
      some (s, r) := by
  induction s generalizing fuel with
  | nil =>
    obtain ⟨fuel, rfl⟩ := Nat.exists_eq_add_of_lt hfuel
    exact stringBody?_of_closing ht
  | cons c s ih =>
    obtain ⟨fuel, rfl⟩ := Nat.exists_eq_succ_of_ne_zero (Nat.ne_zero_of_lt hfuel)
    rw [List.flatMap_cons, List.append_assoc, stringBody?_escapedChar,
      ih (Nat.lt_of_succ_lt_succ hfuel)]
    rfl

end Escapes

/-! ### Texts without escapes -/

/-- The kind of a string without escapes. -/
def literalKind (multiline : Bool) : StringKind := ⟨literalMark, false, multiline⟩

section Literals
variable {multiline : Bool} {c : Char} {s r t : List Char} {fuel : ℕ}

/-- The run of marks that a text starts with. -/
def leadingMarks (s : List Char) : ℕ := (s.takeWhile (· == literalMark)).length

/-- The step that counts runs of marks: the longest one so far, and the one at the end. -/
def countMark (counts : ℕ × ℕ) (c : Char) : ℕ × ℕ :=
  let run := if c = plainMark then counts.2 + 1 else 0
  (max counts.1 run, run)

lemma longestMarkRun_eq (s : List Char) : longestMarkRun s = (s.foldl countMark (0, 0)).1 := rfl

lemma le_foldl_countMark (s : List Char) (counts : ℕ × ℕ) :
    counts.1 ≤ (s.foldl countMark counts).1 := by
  induction s generalizing counts with
  | nil => exact le_rfl
  | cons c s ih => exact (le_max_left _ _).trans (ih (countMark counts c))

lemma snd_le_fst_foldl_countMark (s : List Char) (counts : ℕ × ℕ) (h : counts.2 ≤ counts.1) :
    (s.foldl countMark counts).2 ≤ (s.foldl countMark counts).1 := by
  induction s generalizing counts with
  | nil => exact h
  | cons c s ih => exact ih _ (le_max_right _ _)

lemma add_leadingMarks_le (s : List Char) (counts : ℕ × ℕ) (h : counts.2 ≤ counts.1) :
    counts.2 + leadingMarks s ≤ (s.foldl countMark counts).1 := by
  induction s generalizing counts with
  | nil => exact h
  | cons c s ih =>
    by_cases hc : c = literalMark
    · have hstep : countMark counts c = (max counts.1 (counts.2 + 1), counts.2 + 1) := by
        rw [countMark, if_pos (show c = plainMark from hc)]
      have hrun : leadingMarks (c :: s) = leadingMarks s + 1 := by
        rw [leadingMarks, List.takeWhile_cons_of_pos (by simpa using hc),
          List.length_cons, leadingMarks]
      have := ih (countMark counts c) (le_max_right _ _)
      rw [List.foldl_cons, hrun]
      rw [hstep] at this ⊢
      dsimp only at this
      omega
    · have hrun : leadingMarks (c :: s) = 0 := by
        rw [leadingMarks, List.takeWhile_cons_of_neg (by simpa using hc), List.length_nil]
      rw [hrun]
      exact h.trans (le_foldl_countMark (c :: s) counts)

/-- No run of marks in a text is longer than the longest one. -/
lemma leadingMarks_le_of_suffix (h : t <:+ s) : leadingMarks t ≤ longestMarkRun s := by
  obtain ⟨p, rfl⟩ := h
  rw [longestMarkRun_eq, List.foldl_append]
  have := add_leadingMarks_le t _ (snd_le_fst_foldl_countMark p (0, 0) le_rfl)
  omega

lemma isPrintable_of_isControl (hcontrol : isControl c = false) (hline : c ≠ '\n') :
    isPrintable c = true ∧ c ≠ '\x7f' := by
  rw [isControl, Bool.or_eq_false_iff, beq_eq_false_iff_ne, bne_iff_ne.2 hline,
    Bool.and_true] at hcontrol
  refine ⟨?_, hcontrol.2⟩
  rw [isPrintable, Bool.or_eq_true, beq_iff_eq, decide_eq_true_eq]
  by_cases htab : c = '\t'
  · exact .inl htab
  · have hlow := hcontrol.1
    rw [bne_iff_ne.2 htab, Bool.and_true, decide_eq_false_iff_not] at hlow
    exact .inr (not_lt.1 hlow)

/-- The characters of a text without escapes, none of which starts the marks behind it. -/
lemma stringBody?_literal (ht : closing? (literalKind multiline) t = some ([], r))
    (hopen : ∀ s', s' <:+ s → s' ≠ [] → closing? (literalKind multiline) (s' ++ t) = none)
    (hline : '\n' ∈ s → multiline = true) (hcontrol : ∀ c ∈ s, isControl c = false)
    (hfuel : s.length < fuel) :
    stringBody? (literalKind multiline) fuel (s ++ t) = some (s, r) := by
  induction s generalizing fuel with
  | nil =>
    obtain ⟨fuel, rfl⟩ := Nat.exists_eq_add_of_lt hfuel
    exact stringBody?_of_closing ht
  | cons c s ih =>
    obtain ⟨fuel, rfl⟩ := Nat.exists_eq_succ_of_ne_zero (Nat.ne_zero_of_lt hfuel)
    have hrest := ih (fun s' hs' => hopen s' (hs'.trans (List.suffix_cons c s)))
      (fun hmem => hline (List.mem_cons_of_mem c hmem))
      (fun d hd => hcontrol d (List.mem_cons_of_mem c hd)) (Nat.lt_of_succ_lt_succ hfuel)
    have hfirst := hopen (c :: s) List.suffix_rfl (List.cons_ne_nil c s)
    rw [List.cons_append] at hfirst ⊢
    by_cases hc : c = '\n'
    · subst hc
      rw [stringBody?_lineEnd hfirst (hline (by simp)), hrest]
      rfl
    · obtain ⟨hprintable, hdelete⟩ := isPrintable_of_isControl (hcontrol c (by simp)) hc
      rw [stringBody?_plain hfirst hc nofun hprintable hdelete, hrest]
      rfl

lemma closing?_of_leadingMarks_lt (hmultiline : multiline = true) (h : leadingMarks s < 3) :
    closing? (literalKind multiline) s = none := by
  have hmarks : ¬3 ≤ (s.takeWhile (· == (literalKind multiline).mark)).length := not_le.2 h
  rw [closing?, if_neg hmarks, show (literalKind multiline).multiline = true from hmultiline]
  rfl

/-- Short runs of marks inside a text do not end it, and at its end there is none. -/
lemma closing?_suffix_append (hmultiline : multiline = true) (hrun : longestMarkRun s < 3)
    (hlast : s.getLast? ≠ some literalMark) {s' : List Char} (hs' : s' <:+ s) (hne : s' ≠ []) :
    closing? (literalKind multiline) (s' ++ t) = none := by
  refine closing?_of_leadingMarks_lt hmultiline ?_
  have hlast' : s'.getLast hne ≠ literalMark := by
    obtain ⟨p, rfl⟩ := hs'
    rw [List.getLast?_append_of_ne_nil _ hne, List.getLast?_eq_some_getLast hne] at hlast
    exact fun heq => hlast (by rw [heq])
  have hstops : ¬(s'.takeWhile (· == literalMark)).length = s'.length := by
    intro hall
    have heq := (List.takeWhile_prefix (· == literalMark)).eq_of_length hall
    exact hlast' (by simpa using List.takeWhile_eq_self_iff.1 heq _ (List.getLast_mem hne))
  rw [leadingMarks, List.takeWhile_append, if_neg hstops]
  exact (leadingMarks_le_of_suffix hs').trans_lt hrun

end Literals

/-! ### Whole strings -/

section Strings
variable {mark c : Char} {escapes : Bool} {body s r t : List Char}

/-- A body is read up to the marks behind it, whatever the bound. -/
def IsBody (kind : StringKind) (body s : List Char) (t : List Char) : Prop :=
  ∀ fuel, body.length < fuel →
  stringBody? kind fuel (body ++ (closingMarks kind ++ t)) = some (s, t)

lemma stringAfterMark?_one (hbody : IsBody ⟨mark, escapes, false⟩ body s (c :: r))
    (hhead : body.head? ≠ some mark) (hc : c ≠ mark) :
    stringAfterMark? mark escapes (body ++ mark :: c :: r) =
      some ((String.ofList s, false), c :: r) := by
  have hmarks : ((body ++ mark :: c :: r).take 2 == [mark, mark]) = false := by
    rw [beq_eq_false_iff_ne]
    cases body with
    | nil => simpa using hc
    | cons d body =>
      intro heq
      exact hhead (congrArg some (List.cons.inj heq).1)
  have hread := hbody ((body ++ mark :: c :: r).length + 1) (by rw [List.length_append]; omega)
  rw [stringAfterMark?, hmarks]
  exact congrArg (Option.map _) hread

lemma stringAfterMark?_three (hbody : IsBody ⟨mark, escapes, true⟩ body s (c :: r))
    (hmark : mark ≠ '\n') (hhead : body.head? ≠ some '\n') :
    stringAfterMark? mark escapes (mark :: mark :: (body ++ mark :: mark :: mark :: c :: r)) =
      some ((String.ofList s, true), c :: r) := by
  have hread := hbody ((body ++ mark :: mark :: mark :: c :: r).length + 1)
    (by rw [List.length_append]; omega)
  have hmarks : ((mark :: mark :: (body ++ mark :: mark :: mark :: c :: r)).take 2 == [mark,
      mark]) = true := by simp
  simp only [stringAfterMark?, hmarks, if_true]
  split
  · rename_i heq
    cases body with
    | nil => exact absurd (List.cons.inj heq).1 hmark
    | cons d body => exact absurd (congrArg some (List.cons.inj heq).1) hhead
  · exact congrArg (Option.map _) hread

lemma stringAfterMark?_lineEnd (hbody : IsBody ⟨mark, escapes, true⟩ body s (c :: r)) :
    stringAfterMark? mark escapes
      (mark :: mark :: '\n' :: (body ++ mark :: mark :: mark :: c :: r)) =
      some ((String.ofList s, true), c :: r) := by
  have hread := hbody ((body ++ mark :: mark :: mark :: c :: r).length + 1)
    (by rw [List.length_append]; omega)
  have hmarks :
      ((mark :: mark :: '\n' :: (body ++ mark :: mark :: mark :: c :: r)).take 2 == [mark, mark]) =
        true := by simp
  simp only [stringAfterMark?, hmarks, if_true]
  exact congrArg (Option.map _) hread

lemma exists_escapedChar_eq (multiline : Bool) (d : Char) :
    ∃ e t, escapedChar multiline d = e :: t ∧ e ≠ '"' := by
  unfold escapedChar
  split_ifs with _ _ _ _ _ _ hquote
  · exact ⟨_, _, rfl, by decide⟩
  · exact ⟨_, _, rfl, by decide⟩
  · exact ⟨_, _, rfl, by decide⟩
  · exact ⟨_, _, rfl, by decide⟩
  · exact ⟨_, _, rfl, by decide⟩
  · exact ⟨_, _, rfl, by decide⟩
  · exact ⟨_, _, rfl, by decide⟩
  · exact ⟨_, _, rfl, by decide⟩
  · exact ⟨_, _, rfl, by decide⟩
  · exact ⟨d, [], rfl, hquote⟩

lemma head?_flatMap_escapedChar (multiline : Bool) (s : List Char) :
    (s.flatMap (escapedChar multiline)).head? ≠ some '"' := by
  cases s with
  | nil => simp
  | cons d s =>
    obtain ⟨e, t, heq, he⟩ := exists_escapedChar_eq multiline d
    rw [List.flatMap_cons, heq, List.cons_append, List.head?_cons]
    exact fun hquote => he (Option.some.inj hquote)

lemma isBody_escaped (multiline : Bool) (s : List Char) (hc : c ≠ '"') :
    IsBody (escapedKind multiline) (s.flatMap (escapedChar multiline)) s (c :: r) := fun _ hfuel =>
  stringBody?_flatMap_escapedChar (closing?_closingMarks hc)
    ((length_le_flatMap_escapedChar multiline s).trans_lt hfuel)

lemma IsEnd.ne_mark (hc : IsEnd c) : c ≠ '"' ∧ c ≠ literalMark := by
  obtain rfl | rfl | rfl := hc <;> decide

lemma string?_escaped (hstyle : (TextStyle.of s).isLiteral = false) (hc : IsEnd c) :
    string? (textChars s ++ c :: r) = some ((String.ofList s, (TextStyle.of s).multiline),
      c :: r) := by
  have hquote := hc.ne_mark.1
  cases hmultiline : (TextStyle.of s).multiline with
  | false =>
    have hchars : textChars s = '"' :: (s.flatMap (escapedChar false) ++ ['"']) := by
      simp [textChars, hstyle, hmultiline]
    rw [hchars, List.cons_append, List.append_assoc]
    exact stringAfterMark?_one (isBody_escaped false s hquote)
      (head?_flatMap_escapedChar false s) hquote
  | true =>
    have hchars : textChars s = '"' :: '"' :: '"' :: '\n' :: (s.flatMap (escapedChar true) ++ ['"',
        '"', '"']) := by
      simp [textChars, hstyle, hmultiline, List.replicate]
    rw [hchars, List.cons_append, List.cons_append, List.cons_append, List.cons_append,
      List.append_assoc]
    exact stringAfterMark?_lineEnd (isBody_escaped true s hquote)

/-- What makes a text fit to be written without escapes. -/
lemma isLiteral_iff : (TextStyle.of s).isLiteral = true ↔
    '\\' ∈ s ∧ (∀ c ∈ s, isControl c = false) ∧ longestMarkRun s < 3 ∧
    s.getLast? ≠ some literalMark := by
  simp only [TextStyle.of, Bool.and_eq_true, List.contains_iff_mem, Bool.not_eq_true',
    List.any_eq_false, decide_eq_true_eq, bne_iff_ne, Bool.not_eq_true, and_assoc]
  rfl

/-- Three marks on both sides enclose any such text. -/
lemma isBody_marked (hstyle : (TextStyle.of s).isLiteral = true) (hc : c ≠ literalMark) :
    IsBody (literalKind true) s s (c :: r) := by
  obtain ⟨-, hcontrol, hrun, hlast⟩ := isLiteral_iff.1 hstyle
  exact fun _ hfuel => stringBody?_literal (closing?_closingMarks hc)
    (fun s' hs' hne => closing?_suffix_append rfl hrun hlast hs' hne) (fun _ => rfl) hcontrol hfuel

/-- One mark on both sides encloses one without marks and line ends. -/
lemma isBody_unmarked (hstyle : (TextStyle.of s).isLiteral = true) (hc : c ≠ literalMark)
    (hline : '\n' ∉ s) (hinside : literalMark ∉ s) : IsBody (literalKind false) s s (c :: r) := by
  obtain ⟨-, hcontrol, -, -⟩ := isLiteral_iff.1 hstyle
  have hopen (s' : List Char) (hs' : s' <:+ s) (hne : s' ≠ []) :
      closing? (literalKind false) (s' ++ (closingMarks (literalKind false) ++ c :: r)) = none := by
    obtain ⟨d, s', rfl⟩ := List.exists_cons_of_ne_nil hne
    exact closing?_of_ne (ne_of_mem_of_not_mem (hs'.subset List.mem_cons_self) hinside)
  exact fun _ hfuel =>
    stringBody?_literal (closing?_closingMarks hc) hopen (fun hmem => absurd hmem hline)
      hcontrol hfuel

lemma string?_literal (hstyle : (TextStyle.of s).isLiteral = true) (hc : IsEnd c) :
    ∃ multiline, string? (textChars s ++ c :: r) = some ((String.ofList s, multiline), c :: r) := by
  have hmark := hc.ne_mark.2
  cases hmultiline : (TextStyle.of s).multiline with
  | true =>
    have hchars : textChars s =
        literalMark :: literalMark :: literalMark :: '\n' :: (s ++ [literalMark, literalMark,
          literalMark]) := by
      simp [textChars, hstyle, hmultiline, List.replicate, plainMark, literalMark]
    rw [hchars, List.cons_append, List.cons_append, List.cons_append, List.cons_append,
      List.append_assoc]
    exact ⟨true, stringAfterMark?_lineEnd (isBody_marked hstyle hmark)⟩
  | false =>
    have hline : '\n' ∉ s := by simpa [TextStyle.of] using hmultiline
    cases hinside : s.contains plainMark with
    | true =>
      have hchars : textChars s =
          literalMark :: literalMark :: literalMark :: (s ++ [literalMark, literalMark,
            literalMark]) := by
        simp only [textChars, hstyle, hmultiline, hinside, Bool.or_true, if_true,
          Bool.false_eq_true, if_false, List.append_nil, List.append_assoc]
        rfl
      rw [hchars, List.cons_append, List.cons_append, List.cons_append, List.append_assoc]
      exact ⟨true, stringAfterMark?_three (isBody_marked hstyle hmark) (by decide) fun hhead =>
        hline (List.mem_of_mem_head? hhead)⟩
    | false =>
      have hunmarked : literalMark ∉ s := by
        rwa [List.contains_eq_mem, decide_eq_false_iff_not] at hinside
      have hchars : textChars s = literalMark :: (s ++ [literalMark]) := by
        simp only [textChars, hstyle, hmultiline, hinside, Bool.or_false, if_true,
          Bool.false_eq_true, if_false, List.append_nil]
        rfl
      rw [hchars, List.cons_append, List.append_assoc]
      exact ⟨false, stringAfterMark?_one (isBody_unmarked hstyle hmark hline hunmarked)
        (fun hhead => hunmarked (List.mem_of_mem_head? hhead)) hmark⟩

lemma exists_textChars_eq (s : List Char) : ∃ d t, textChars s = d :: t ∧
    (d = '"' ∨ d = literalMark) := by
  simp only [textChars]
  split_ifs
  all_goals exact ⟨_, _, rfl, by decide⟩

/-- A text is read as itself, whatever its characters. -/
theorem scalar?_textChars (s : List Char) (hc : IsEnd c) :
    scalar? (textChars s ++ c :: r) = some (.string (String.ofList s), c :: r) := by
  have hread : ∃ multiline, string? (textChars s ++ c :: r) =
      some ((String.ofList s, multiline), c :: r) := by
    cases hstyle : (TextStyle.of s).isLiteral with
    | false => exact ⟨_, string?_escaped hstyle hc⟩
    | true => exact string?_literal hstyle hc
  obtain ⟨multiline, hread⟩ := hread
  obtain ⟨d, t, heq, hd⟩ := exists_textChars_eq s
  rw [heq, List.cons_append] at hread ⊢
  obtain rfl | rfl := hd
  · exact congrArg (Option.map _) hread
  · exact congrArg (Option.map _) hread

end Strings

/-! ### Line ends -/

section Returns
variable {c : Char}

lemma return_not_mem_unitDigits (h : c.toNat < 128) : '\r' ∉ unitDigits c := by
  have hall : ∀ k : Fin 128, '\r' ∉ unitDigits (Char.ofNat k) := by decide +kernel
  simpa using hall ⟨c.toNat, h⟩

lemma return_not_mem_escapedChar (multiline : Bool) (c : Char) :
    '\r' ∉ escapedChar multiline c := by
  unfold escapedChar
  split_ifs with _ _ _ _ _ hr _ _ hcontrol
  all_goals try decide
  · have hdigits := return_not_mem_unitDigits (toNat_lt_of_isControl hcontrol)
    rw [List.mem_cons, List.mem_cons]
    exact not_or.2 ⟨by decide, not_or.2 ⟨by decide, hdigits⟩⟩
  · rw [List.mem_singleton]
    exact fun heq => hr heq.symm

/-- No carriage return of a text is written as it is. -/
lemma return_not_mem_textChars (s : List Char) : '\r' ∉ textChars s := by
  have hmarks {mark : Char} (hmark : mark ≠ '\r') (k : ℕ) : '\r' ∉ List.replicate k mark :=
    fun hmem =>
    hmark (List.mem_replicate.1 hmem).2.symm
  have hline : '\r' ∉ (if (TextStyle.of s).multiline then ['\n'] else []) := by split <;> decide
  simp only [textChars]
  split
  · rename_i hliteral
    have hs : '\r' ∉ s := fun hmem => absurd ((isLiteral_iff.1 hliteral).2.1 _ hmem) (by decide)
    simp only [List.mem_append, not_or]
    exact ⟨⟨⟨hmarks (by decide) _, hline⟩, hs⟩, hmarks (by decide) _⟩
  · have hs : '\r' ∉ s.flatMap (escapedChar (TextStyle.of s).multiline) := by
      rw [List.mem_flatMap]
      rintro ⟨c, -, hmem⟩
      exact return_not_mem_escapedChar _ c hmem
    simp only [List.mem_append, not_or]
    exact ⟨⟨⟨hmarks (by decide) _, hline⟩, hs⟩, hmarks (by decide) _⟩

end Returns
end SkyResolver.Toml
