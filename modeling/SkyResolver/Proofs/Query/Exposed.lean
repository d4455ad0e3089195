import SkyResolver.Proofs.Query.Alignment
import SkyResolver.Proofs.Query.Recovery
import SkyResolver.Proofs.Query.WrittenForm

/-! Parentheses that structure a query. The grammar opens and closes groups with parentheses outside
of phrases that no backslash stands in front of, and with all of them. So these match in each text
that the grammar takes, and such a text can fail the check of parentheses on account of the others
only. -/
namespace SkyResolver.Query
open SkyResolver.Text

/-! ### Exposed and hidden characters -/

/-- The characters of a text that are neither in a phrase nor behind a backslash. A phrase is open
at the start of the text when `quoted` is set. -/
def exposed (quoted : Bool) : List Char → List Char
  | '\\' :: _ :: s => exposed quoted s
  | c :: s =>
    if c = '"' then exposed (!quoted) s
    else if quoted then exposed quoted s
    else c :: exposed quoted s
  | [] => []

/-- The characters of a text that are in a phrase or behind a backslash. -/
def hidden (quoted : Bool) : List Char → List Char
  | '\\' :: c :: s => c :: hidden quoted s
  | c :: s =>
    if c = '"' then hidden (!quoted) s
    else if quoted then c :: hidden quoted s
    else hidden quoted s
  | [] => []

section Exposed
variable {quoted : Bool} {c : Char} {s : List Char}

lemma exposed_cons (hc : c ≠ '\\') (s : List Char) : exposed quoted (c :: s) =
    if c = '"' then exposed (!quoted) s else if quoted then exposed quoted s else
      c :: exposed quoted s := by
  rw [exposed]
  rintro d t rfl
  exact absurd rfl hc

/-- Inside a phrase nothing is exposed. -/
lemma exposed_inPhrase {u : List Char} (hu : Units inPhrase u) (s : List Char) :
    exposed true (u ++ '"' :: s) = exposed false s := by
  induction hu with
  | nil => rw [List.nil_append, exposed_cons (by decide), if_pos rfl, Bool.not_true]
  | escaped c tail ih => exact ih
  | @plain c u hc tail ih =>
    simp only [inPhrase, Bool.and_eq_true, bne_iff_ne] at hc
    rw [List.cons_append, exposed_cons hc.2, if_neg hc.1, if_pos rfl, ih]

lemma parentheses_eq_nil_of_cons (h : parentheses (c :: s) = []) :
    ¬(c = '(' ∨ c = ')') ∧ parentheses s = [] := by
  rw [parentheses_cons] at h
  split at h
  · cases h
  · exact ⟨‹_›, h⟩

/-- Where no parenthesis is hidden, all of them are exposed. -/
lemma parentheses_exposed (h : parentheses (hidden quoted s) = []) :
    parentheses (exposed quoted s) = parentheses s := by
  fun_induction hidden quoted s with
  | case1 quoted c s ih =>
    obtain ⟨hc, hs⟩ := parentheses_eq_nil_of_cons h
    rw [exposed, ih hs, parentheses_cons, if_neg (by decide), parentheses_cons, if_neg hc]
  | case2 quoted s hslash ih =>
    rw [exposed, if_pos rfl, ih h, parentheses_cons, if_neg (by decide)]
    exact hslash
  | case3 c s hslash hquote ih =>
    obtain ⟨hc, hs⟩ := parentheses_eq_nil_of_cons h
    rw [exposed, if_neg hquote, if_pos rfl, ih hs, parentheses_cons, if_neg hc]
    exact hslash
  | case4 quoted c s hslash hquote hquoted ih =>
    rw [exposed, if_neg hquote, if_neg hquoted, parentheses_cons, parentheses_cons, ih h]
    exact hslash
  | case5 => rfl

end Exposed

/-! ### Texts that leave the scan as it was -/

/-- A text that opens no phrase and no group without closing it, wherever it stands outside of
phrases. -/
def Neutral (t : List Char) : Prop :=
  ∀ depth s, closesAll depth (exposed false (t ++ s)) = closesAll depth (exposed false s)

/-- A character that neither hides nor groups anything. -/
def IsOrdinary (c : Char) : Prop := c ≠ '\\' ∧ c ≠ '"' ∧ c ≠ '(' ∧ c ≠ ')'

instance (c : Char) : Decidable (IsOrdinary c) := inferInstanceAs (Decidable (_ ∧ _))

section Neutral
variable {c : Char} {t u : List Char}

lemma Neutral.nil : Neutral [] := fun _ _ => rfl

lemma Neutral.append (ht : Neutral t) (hu : Neutral u) : Neutral (t ++ u) := by
  intro depth s
  rw [List.append_assoc, ht, hu]

lemma Neutral.cons (hc : IsOrdinary c) (ht : Neutral t) : Neutral (c :: t) := by
  intro depth s
  obtain ⟨hslash, hquote, hopen, hclose⟩ := hc
  rw [List.cons_append, exposed_cons hslash, if_neg hquote, if_neg Bool.false_ne_true,
    closesAll, if_neg hopen, if_neg hclose, ht]

lemma neutral_of_ordinary (h : ∀ c ∈ t, IsOrdinary c) : Neutral t := by
  induction t with
  | nil => exact .nil
  | cons c t ih =>
    obtain ⟨hc, ht⟩ := List.forall_mem_cons.1 h
    exact .cons hc (ih ht)

/-- What stands between parentheses closes before they do. -/
lemma Neutral.enclosed (ht : Neutral t) : Neutral ('(' :: (t ++ [')'])) := by
  intro depth s
  have hclose : closesAll (depth + 1)
      (exposed false (')' :: s)) = closesAll depth (exposed false s) := by
    rw [exposed_cons (by decide)]
    simp [closesAll]
  calc closesAll depth (exposed false ('(' :: (t ++ [')']) ++ s))
      = closesAll (depth + 1) (exposed false (t ++ (')' :: s))) := by
        rw [List.cons_append, exposed_cons (by decide)]
        simp [closesAll]
    _ = closesAll depth (exposed false s) := by rw [ht, hclose]

lemma neutral_of_units {ok : Char → Bool} (hok : ∀ c, ok c = true → IsOrdinary c)
    (ht : Units ok t) : Neutral t := by
  induction ht with
  | nil => exact .nil
  | escaped c tail ih => exact ih
  | plain hc tail ih => exact .cons (hok _ hc) ih

lemma neutral_of_isPhrase (ht : IsPhrase t) : Neutral t := by
  obtain ⟨u, rfl, hu⟩ := isPhrase_iff_units.1 ht
  intro depth s
  rw [List.cons_append, List.append_assoc, exposed_cons (by decide), if_pos rfl]
  exact congrArg (closesAll depth) (exposed_inPhrase hu s)

lemma isOrdinary_of_isPlain (hc : isPlain c = true) : IsOrdinary c := by
  refine ⟨?_, ?_, ?_, ?_⟩ <;>
  · rintro rfl
    cases hc

lemma neutral_of_run {colons : Bool} (ht : Run colons t) : Neutral t := by
  refine neutral_of_units (fun c hc => ?_) ht
  obtain hc | hc := Bool.or_eq_true_iff.1 hc
  · exact isOrdinary_of_isPlain hc
  · obtain rfl : c = ':' := by simpa using (Bool.and_eq_true_iff.1 hc).2
    decide

lemma Gap.neutral (gap : Gap) : Neutral gap.chars := by
  refine neutral_of_ordinary fun c hc => ⟨?_, ?_, ?_, ?_⟩ <;>
  · rintro rfl
    cases gap.blank _ hc

lemma neutral_of_number {number : Option String} {r : List Char}
    (h : optionalNumber (optionalChars number ++ r) = (number, r)) :
    Neutral (optionalChars number) := by
  have hdigit : ∀ {w : List Char}, (∀ c ∈ w, c.isDigit = true) → Neutral w := fun hw =>
    neutral_of_ordinary fun c hc => isOrdinary_of_isPlain (isPlain_of_isDigit (hw c hc))
  cases number with
  | none => exact .nil
  | some text =>
    unfold optionalNumber at h
    split at h
    · rename_i text' rest hread
      cases h
      obtain ⟨-, -, ⟨w, f, htext, -, hw, hf⟩ | ⟨-, hall, -⟩⟩ := number?_eq_some hread
      · have hchars : optionalChars (some text) = w ++ '.' :: f := htext
        rw [hchars]
        exact (hdigit hw).append (.cons (by decide) (hdigit hf))
      · exact hdigit hall
    · cases h

end Neutral

/-! ### Spellings -/

lemma Bound.neutral {bound : Bound} {r : List Char} (h : bound.Valid r) : Neutral bound.text := by
  cases bound with
  | word text => exact neutral_of_run h.1.run
  | phrase text => exact neutral_of_isPhrase h

lemma Atom.neutral {atom : Atom} {colons : Bool} {r : List Char} (h : atom.Valid colons r) :
    Neutral atom.text := by
  cases atom with
  | word text => exact neutral_of_run h.1.run
  | phrase text => exact neutral_of_isPhrase h
  | range includeLow includeHigh g₁ low g₂ g₃ high g₄ =>
    have hopen : IsOrdinary (openingBracket includeLow) := by cases includeLow <;> decide
    have hclose : IsOrdinary (closingBracket includeHigh) := by cases includeHigh <;> decide
    have hto : Neutral ['T', 'O'] := .cons (by decide) (.cons (by decide) .nil)
    have hhigh :=
      g₃.neutral.append ((Bound.neutral h.2.2).append (g₄.neutral.append (.cons hclose .nil)))
    have hlow := (Bound.neutral h.1).append (g₂.neutral.append (hto.append hhigh))
    exact .cons hopen (g₁.neutral.append hlow)

lemma neutral_headText {head : Option FieldHead}
    (h : ∀ head' ∈ head, IsFieldName head'.name.toList) :
    Neutral (headText head) := by
  cases head with
  | none => exact .nil
  | some head =>
    have hname := neutral_of_run (h head rfl).run
    exact (hname.append head.before.neutral).append (.cons (by decide) head.after.neutral)

lemma Link.neutral (link : Link) : Neutral link.text := by
  cases link with
  | and before keyword after =>
    have hand : Neutral (andText keyword) := by
      cases keyword with
      | false => exact .cons (by decide) (.cons (by decide) .nil)
      | true => exact .cons (by decide) (.cons (by decide) (.cons (by decide) .nil))
    exact before.neutral.append (hand.append after.neutral)
  | beside gap => exact gap.neutral
  | or before after =>
    exact before.neutral.append (.cons (by decide) (.cons (by decide) after.neutral))

lemma neutral_signText (op : PrefixOp) : Neutral (signText op) := by
  cases op with
  | not => exact .cons (by decide) (.cons (by decide) (.cons (by decide) .nil))
  | plus => exact .cons (by decide) .nil
  | minus => exact .cons (by decide) .nil

/-- The text of a spelling opens nothing that it does not close. -/
theorem Spelling.neutral {k : Rank} (p : Spelling k) {r : List Char} (h : p.Valid r) :
    Neutral p.text := by
  induction p generalizing r with
  | atom head value => exact (neutral_headText h.1).append (Atom.neutral h.2)
  | group head before inner after ih =>
    -- Only groups have exposed parentheses of their own.
    have hinside := before.neutral.append ((ih h.2).append after.neutral)
    rw [Spelling.text, ← List.append_assoc inner.text, ← List.append_assoc before.chars]
    exact (neutral_headText h.1).append hinside.enclosed
  | modified operand gap modifier number ih =>
    have hmark : IsOrdinary modifier.mark := by cases modifier <;> decide
    exact (ih h.1).append (gap.neutral.append (.cons hmark (neutral_of_number h.2)))
  | bare element ih => exact ih h
  | prefixed op gap operand ih => exact (neutral_signText op).append (gap.neutral.append (ih h.2))
  | single operand ih => exact ih h
  | linked first link rest ihFirst ihRest =>
    exact (ihFirst h.1).append (link.neutral.append (ihRest h.2.2))

/-! ### Queries -/

section Queries
variable {query : String} {tree : Tree}

/-- The exposed parentheses of a text that the grammar takes match. So the check of parentheses
passes where no parenthesis is hidden, and a text that the grammar takes is refused on account of
hidden ones only. -/
theorem exposed_parentheses_match (h : Tree.ofChars? query.toList = some tree) :
    closesAll 0 (exposed false query.toList) = true ∧
      ((∀ c ∈ hidden false query.toList, c ≠ '(' ∧ c ≠ ')') → parenthesesMatch query = true) ∧
      ∀ fault, Tree.parse query = .error fault →
        fault = .unbalanced query ∧ ∃ c ∈ hidden false query.toList, c = '(' ∨ c = ')' := by
  have hexposed : closesAll 0 (exposed false query.toList) = true := by
    obtain ⟨before, after, p, hquery, hvalid, -⟩ := exists_spelling h
    have hneutral := before.neutral.append ((p.neutral hvalid).append after.neutral)
    have hall := hneutral 0 []
    rwa [← hquery, List.append_nil] at hall
  have hmatch : (∀ c ∈ hidden false query.toList, c ≠ '(' ∧ c ≠ ')') →
      parenthesesMatch query = true := by
    intro hnone
    rw [parenthesesMatch, ← closesAll_parentheses, ← parentheses_exposed (parentheses_eq_nil hnone),
      closesAll_parentheses, hexposed]
  refine ⟨hexposed, hmatch, fun fault hfault => ?_⟩
  have hopen : ¬parenthesesMatch query = true := by
    intro hbalanced
    rw [parse_eq_ok.2 ⟨hbalanced, h⟩] at hfault
    cases hfault
  rw [Tree.parse, if_neg hopen] at hfault
  refine ⟨(Except.error.inj hfault).symm, ?_⟩
  by_contra hnone
  refine hopen (hmatch fun c hc => ⟨?_, ?_⟩)
  · exact fun hparen => hnone ⟨c, hc, .inl hparen⟩
  · exact fun hparen => hnone ⟨c, hc, .inr hparen⟩

/-- A parenthesis in a phrase is refused, and a group is not. -/
theorem exposed_parentheses_match_of_phrase :
    (Tree.ofChars? "(a) \"b)\"".toList = some (.operation .implicit [.group (.word "a"),
      .phrase "\"b)\""]) ∧
      closesAll 0 (exposed false "(a) \"b)\"".toList) = true ∧
      Tree.parse "(a) \"b)\"" = .error (.unbalanced "(a) \"b)\"") ∧
      ∃ c ∈ hidden false "(a) \"b)\"".toList, c = '(' ∨ c = ')') ∧
    Tree.ofChars? "(a) b".toList = some (.operation .implicit [.group (.word "a"), .word "b"]) ∧
      (∀ c ∈ hidden false "(a) b".toList, c ≠ '(' ∧ c ≠ ')') ∧ parenthesesMatch "(a) b" = true := by
  have hphrase : Tree.ofChars? "(a) \"b)\"".toList =
      some (.operation .implicit [.group (.word "a"), .phrase "\"b)\""]) :=
    Spelling.ofChars? .empty .empty (p := .linked
      (.bare (.group none .empty (.single (.bare (.atom none (.word "a")))) .empty)) (.beside .one)
      (.single (.bare (.atom none (.phrase "\"b)\""))))) (by decide)
  have hword :
      Tree.ofChars? "(a) b".toList = some (.operation .implicit [.group (.word "a"), .word "b"]) :=
    Spelling.ofChars? .empty .empty (p := .linked
      (.bare (.group none .empty (.single (.bare (.atom none (.word "a")))) .empty)) (.beside .one)
      (.single (.bare (.atom none (.word "b"))))) (by decide)
  have hrefused : Tree.parse "(a) \"b)\"" = .error (.unbalanced "(a) \"b)\"") := by
    rw [Tree.parse, if_neg (by decide)]
  have hnone : ∀ c ∈ hidden false "(a) b".toList, c ≠ '(' ∧ c ≠ ')' := by
    have hnil : hidden false "(a) b".toList = [] := by decide
    rw [hnil]
    exact List.forall_mem_nil _
  obtain ⟨hexposed, -, hhidden⟩ := exposed_parentheses_match hphrase
  obtain ⟨-, hmatch, -⟩ := exposed_parentheses_match hword
  exact ⟨⟨hphrase, hexposed, hrefused, (hhidden _ hrefused).2⟩, hword, hnone, hmatch hnone⟩

end Queries

end SkyResolver.Query
