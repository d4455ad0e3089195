import SkyResolver.Proofs.Query.Exchange

/-! Where heads stand. If the heads of object fields stand where fields start, and `object:` stands
there nowhere else, then the heads that are found in the text of a clause are those of its object
fields. -/
namespace SkyResolver.Query
open SkyResolver.Text

/-- At no place of the text behind `previous` at which a field may start does `object:` stand. -/
def Headless (previous : Option Char) (s : List Char) : Prop :=
  ∀ u v, s = u ++ v → (lastOf previous u).all startsField = true → afterObjectHead? v = none

/-- A head of an object field stands where a field may start, no other one ends in `-object`, and
there is no head in a lexeme. -/
def Token.HeadStands (previous : Option Char) : Token → Prop
  | head h => endsInObject h.name = false ∧
    (isObjectField h.name = true → previous.all startsField = true)
  | atom value => Headless previous value.text
  | _ => True

def HeadsStand : Option Char → List Token → Prop
  | _, [] => True
  | previous, token :: tokens =>
    token.HeadStands previous ∧ HeadsStand (lastOf previous token.text) tokens

lemma headless_iff {previous : Option Char} {s : List Char} :
    Headless previous s ↔ headFinder.Fires [] previous (keepAll s) := by
  rw [Finder.fires_keepAll_iff]
  have hfind : ∀ {previous : Option Char} {s : List Char}, headFinder.find previous s = none ↔
      (previous.all startsField = true → afterObjectHead? s = none) := by
    intro previous s
    rw [headFinder]
    dsimp only
    split
    · rename_i hprevious
      simp [hprevious]
    · rename_i hprevious
      simp [hprevious]
  simp only [List.append_nil, hfind]
  refine ⟨fun h u c v hs => h u (c :: v) hs, fun h u v hs => ?_⟩
  cases v with
  | nil => exact fun _ => rfl
  | cons c v => exact h u c v hs

instance (previous : Option Char) (s : List Char) : Decidable (Headless previous s) :=
  decidable_of_iff' _ headless_iff

instance (previous : Option Char) : (token : Token) → Decidable (token.HeadStands previous)
  | .head _ => inferInstanceAs (Decidable (_ ∧ _))
  | .atom _ => inferInstanceAs (Decidable (Headless _ _))
  | .gap _ | .sign _ | .opening | .closing | .modifier _ _ | .and _ | .or =>
    inferInstanceAs (Decidable True)

instance decidableHeadsStand : (previous : Option Char) → (tokens : List Token) →
    Decidable (HeadsStand previous tokens)
  | _, [] => inferInstanceAs (Decidable True)
  | previous, token :: tokens =>
    have := decidableHeadsStand (lastOf previous token.text) tokens
    inferInstanceAs (Decidable (_ ∧ _))

lemma headsStand_append {previous : Option Char} {tokens tokens' : List Token} :
    HeadsStand previous (tokens ++ tokens') ↔
      HeadsStand previous tokens ∧ HeadsStand (lastOf previous (Token.textOf tokens)) tokens' := by
  induction tokens generalizing previous with
  | nil => simp [HeadsStand]
  | cons token tokens ih => simp [HeadsStand, ih, and_assoc]

/-! ### Lexemes without heads -/

section Lexemes
variable {previous : Option Char} {s r : List Char}

/-- What follows a lexeme does not take part in a head. -/
lemma Headless.fires (h : Headless previous s) (hr : Barred r) :
    headFinder.Fires r previous (keepAll s) := by
  rw [headless_iff, Finder.fires_keepAll_iff] at h
  refine Finder.fires_keepAll_iff.2 fun u c v hs => ?_
  have hnone := h u c v hs
  rw [List.append_nil] at hnone
  exact headFinder_append hr (List.cons_ne_nil c v) hnone

/-- The last character of a lexeme may keep what follows out of it. -/
lemma Headless.fires_closed {c : Char} (h : Headless previous (s ++ [c])) (hc : c.isAlpha = false)
    (hr : Barred (c :: r)) : headFinder.Fires r previous (keepAll (s ++ [c])) := by
  have hs : Headless previous s := by
    intro u v hs hstarts
    have hnone := h u (v ++ [c]) (by rw [hs, List.append_assoc]) hstarts
    rw [Option.eq_none_iff_forall_ne_some]
    intro rest hrest
    obtain ⟨word, blanks, rfl, hword, hblanks⟩ := afterObjectHead?_eq_some_iff.1 hrest
    have hfound : afterObjectHead? (word ++ (blanks ++ ':' :: (rest ++ [c]))) =
        some (rest ++ [c]) :=
      afterObjectHead?_eq_some_iff.2 ⟨word, blanks, rfl, hword, hblanks⟩
    rw [List.append_assoc, List.append_assoc, List.cons_append, hfound] at hnone
    cases hnone
  rw [keepAll, List.map_append, ← keepAll, ← keepAll, Finder.fires_append, markedText_keepAll]
  exact ⟨hs.fires hr, fires_quiet (by simpa using hc) r⟩

lemma Atom.Valid.fires {value : Atom} {colons : Bool} (hvalue : value.Valid colons r)
    (hr : (r.dropWhile isBlank).head? ≠ some ':') (h : Headless previous value.text) :
    headFinder.Fires r previous (keepAll value.text) := by
  cases value with
  | word text => exact h.fires ⟨hvalue.2.1, hr⟩
  | phrase text =>
    obtain ⟨u, hu, -⟩ := isPhrase_iff_units.1 hvalue
    rw [Atom.text, hu, ← List.cons_append] at h ⊢
    exact h.fires_closed rfl (barred_quote r)
  | range includeLow includeHigh g₁ low g₂ g₃ high g₄ =>
    obtain ⟨s, hs⟩ : ∃ s, (Atom.range includeLow includeHigh g₁ low g₂ g₃ high g₄).text =
        s ++ [closingBracket includeHigh] := by
      refine ⟨openingBracket includeLow :: (g₁.chars ++ (low.text ++ (g₂.chars ++ 'T' :: 'O' ::
        (g₃.chars ++ (high.text ++ g₄.chars))))), ?_⟩
      simp [Atom.text]
    rw [hs] at h ⊢
    refine h.fires_closed (by cases includeHigh <;> rfl) ?_
    change Barred (Gap.empty.chars ++ closingBracket includeHigh :: r)
    exact Gap.barred (by cases includeHigh <;> rfl) (by cases includeHigh <;> decide)
      (by cases includeHigh <;> rfl)

end Lexemes

/-! ### Heads of fields -/

lemma headFinder_head {previous : Option Char} {word blanks : List Char}
    (hprevious : previous.all startsField = true)
    (hword : equalIgnoringCase word "object".toList = true)
    (hblanks : ∀ c ∈ blanks, isBlank c = true) (rest : List Char) :
    headFinder.find previous (word ++ (blanks ++ [':']) ++ rest) =
      some (word ++ (blanks ++ [':'])) := by
  have hrest : afterObjectHead? (word ++ (blanks ++ [':']) ++ rest) = some rest :=
    afterObjectHead?_eq_some_iff.2 ⟨word, blanks, by simp, hword, hblanks⟩
  rw [headFinder]
  dsimp only
  rw [if_pos hprevious, hrest, Option.map_some, List.length_append, Nat.add_sub_cancel,
    List.take_left]

lemma FieldHead.fires {h : FieldHead} (hname : IsFieldName h.name.toList) {previous : Option Char}
    (hstands : Token.HeadStands previous (.head h)) (r : List Char) :
    headFinder.Fires r previous (headMarks (some h)) := by
  obtain ⟨hends, hstarts⟩ := hstands
  rw [headMarks]
  split
  · rename_i hobject
    have hblanks : ∀ c ∈ h.before.chars, isBlank c = true :=
      fun c hc => isBlank_of_isGap (h.before.blank c hc)
    rw [List.append_assoc]
    refine ⟨⟨?_, endsEscaped_head hobject hblanks⟩, fires_quiet h.after.not_isAlpha r⟩
    exact headFinder_head (hstarts hobject) hobject hblanks _
  · rename_i hobject
    have htext : h.text = h.name.toList ++ (h.before.chars ++ ':' :: h.after.chars) := by
      simp [FieldHead.text]
    rw [htext, keepAll, List.map_append, ← keepAll, ← keepAll, Finder.fires_append,
      markedText_keepAll]
    refine ⟨?_, fires_quiet ?_ r⟩
    · rw [List.append_assoc, List.cons_append]
      exact fires_fieldName hname hends (fun hboth => hobject hboth.2) h.before _
    · intro c hc
      rcases List.mem_append.1 hc with hc | hc
      · exact h.before.not_isAlpha c hc
      · rcases List.mem_cons.1 hc with rfl | hc
        · rfl
        · exact h.after.not_isAlpha c hc

lemma fires_headMarks {head : Option FieldHead} (hname : ∀ h ∈ head, IsFieldName h.name.toList)
    {previous : Option Char} (h : HeadsStand previous (headTokens head)) (r : List Char) :
    headFinder.Fires r previous (headMarks head) := by
  cases head with
  | none => trivial
  | some head => exact head.fires (hname head rfl) h.1 r

/-! ### Heads of spellings -/

lemma headText_append_isBlank {head : FieldHead} (h : IsFieldName head.name.toList)
    (s : List Char) :
    ((head.text ++ s).dropWhile isBlank).head? ≠ some ':' := by
  obtain ⟨c, t, hname, -, -⟩ := id h
  have hc := (h.inHeadName c (by simp [hname])).1
  simp only [inHeadName, Bool.and_eq_true, Bool.not_eq_true', bne_iff_ne] at hc
  rw [FieldHead.text, hname]
  exact dropWhile_isBlank_cons hc.1 hc.2 _

lemma dropWhile_isBlank_gap (gap : Gap) {s : List Char}
    (h : (s.dropWhile isBlank).head? ≠ some ':') :
    ((gap.chars ++ s).dropWhile isBlank).head? ≠ some ':' := by
  rwa [List.dropWhile_append_of_pos fun c hc => isBlank_of_isGap (gap.blank c hc)]

lemma Link.dropWhile_isBlank (link : Link) {s : List Char}
    (h : (s.dropWhile isBlank).head? ≠ some ':') :
    ((link.text ++ s).dropWhile isBlank).head? ≠ some ':' := by
  cases link with
  | and before keyword after =>
    rw [Link.text, List.append_assoc]
    exact dropWhile_isBlank_gap before
      (by cases keyword <;> exact dropWhile_isBlank_cons rfl (by decide) _)
  | beside gap => exact dropWhile_isBlank_gap gap h
  | or before after =>
    rw [Link.text, List.append_assoc]
    exact dropWhile_isBlank_gap before (dropWhile_isBlank_cons rfl (by decide) _)

section Spellings
variable {k : Rank} {p : Spelling k} {r : List Char}

/-- In front of a spelling no colon comes next. -/
lemma Spelling.Valid.dropWhile_isBlank (hp : p.Valid r)
    (hr : (r.dropWhile isBlank).head? ≠ some ':') :
    ((p.text ++ r).dropWhile isBlank).head? ≠ some ':' := by
  induction p generalizing r with
  | atom head value =>
    rw [Spelling.text, List.append_assoc]
    cases head with
    | some head => exact headText_append_isBlank (hp.1 head rfl) _
    | none =>
      rw [headText, List.nil_append]
      cases value with
      | word text => exact dropWhile_isBlank_run hp.2.1.run hr
      | phrase text =>
        obtain ⟨s, hs⟩ := IsPhrase.exists_cons hp.2
        rw [Atom.text, hs]
        exact dropWhile_isBlank_cons rfl (by decide) _
      | range includeLow => cases includeLow <;> exact dropWhile_isBlank_cons rfl (by decide) _
  | group head before inner after ih =>
    rw [Spelling.text, List.append_assoc]
    cases head with
    | some head => exact headText_append_isBlank (hp.1 head rfl) _
    | none => exact dropWhile_isBlank_cons rfl (by decide) _
  | modified operand gap modifier number ih =>
    have hmark : isBlank modifier.mark = false ∧ modifier.mark ≠ ':' := by
      cases modifier <;> exact ⟨rfl, by decide⟩
    have := ih hp.1 (dropWhile_isBlank_gap gap (dropWhile_isBlank_cons hmark.1 hmark.2 _))
    simpa [Spelling.text] using this
  | bare element ih => exact ih hp hr
  | prefixed op gap operand ih => cases op <;> exact dropWhile_isBlank_cons rfl (by decide) _
  | single operand ih => exact ih hp hr
  | linked first link rest ihFirst ihRest =>
    have := ihFirst hp.1 (link.dropWhile_isBlank (ihRest hp.2.2 hr))
    simpa [Spelling.text] using this

lemma fires_linkText (link : Link) (previous : Option Char) (r : List Char) :
    headFinder.Fires r previous (keepAll link.text) := by
  have happend : ∀ s t, keepAll (s ++ t) = keepAll s ++ keepAll t := fun _ _ => List.map_append
  cases link with
  | and before keyword after =>
    rw [Link.text, happend, happend, Finder.fires_append, Finder.fires_append]
    exact ⟨fires_quiet before.not_isAlpha _, fires_andText keyword _ _,
      fires_quiet after.not_isAlpha _⟩
  | beside gap => exact fires_quiet gap.not_isAlpha r
  | or before after =>
    rw [Link.text, show 'O' :: 'R' :: after.chars = ['O', 'R'] ++ after.chars from rfl,
      happend, happend, Finder.fires_append, Finder.fires_append]
    exact ⟨fires_quiet before.not_isAlpha _, fires_or _ _, fires_quiet after.not_isAlpha _⟩

/-- Where heads stand as they should, the heads that are found are those of the object fields. -/
theorem Spelling.Valid.fires_headMarks (hp : p.Valid r)
    (hr : (r.dropWhile isBlank).head? ≠ some ':') {previous : Option Char}
    (h : HeadsStand previous p.tokens) : headFinder.Fires r previous p.headMarks := by
  induction p generalizing r previous with
  | atom head value =>
    rw [Spelling.tokens, headsStand_append, textOf_headTokens] at h
    rw [Spelling.headMarks, Spelling.pieces, Finder.fires_append, markedText_keepAll,
      Query.markedText_headMarks]
    exact ⟨Query.fires_headMarks hp.1 h.1 _, hp.2.fires hr h.2.1⟩
  | group head before inner after ih =>
    rw [Spelling.tokens, headsStand_append, textOf_headTokens] at h
    obtain ⟨hhead, -, h⟩ := h
    rw [headsStand_append, headsStand_append, Gap.textOf_tokens] at h
    rw [Spelling.headMarks, Spelling.pieces, Finder.fires_append, Finder.fires_append,
      Finder.fires_append, Query.markedText_headMarks, markedText_keepAll, markedText_keepAll,
      List.append_assoc]
    have hopen : ∀ c ∈ '(' :: before.chars, c.isAlpha = false :=
      List.forall_mem_cons.2 ⟨rfl, before.not_isAlpha⟩
    have hclose : ∀ c ∈ after.chars ++ [')'], c.isAlpha = false := by
      intro c hc
      rcases List.mem_append.1 hc with hc | hc
      · exact after.not_isAlpha c hc
      · rw [List.mem_singleton.1 hc]
        rfl
    have hinner :=
      ih hp.2 (dropWhile_isBlank_gap after (dropWhile_isBlank_cons rfl (by decide) _)) h.2.1
    exact ⟨Query.fires_headMarks hp.1 hhead _, fires_quiet hopen _, hinner, fires_quiet hclose _⟩
  | modified operand gap modifier number ih =>
    rw [Spelling.tokens, headsStand_append] at h
    rw [Spelling.headMarks, Spelling.pieces, Finder.fires_append, markedText_keepAll]
    have hmark : isBlank modifier.mark = false ∧ modifier.mark ≠ ':' ∧
        modifier.mark.isAlpha = false := by
      cases modifier <;> exact ⟨rfl, by decide, rfl⟩
    have hoperand :=
      ih hp.1 (dropWhile_isBlank_gap gap (dropWhile_isBlank_cons hmark.1 hmark.2.1 _))
      h.1
    rw [List.append_assoc]
    refine ⟨hoperand, fires_quiet (fun c hc => ?_) r⟩
    rcases List.mem_append.1 hc with hc | hc
    · exact gap.not_isAlpha c hc
    · rcases List.mem_cons.1 hc with rfl | hc
      · exact hmark.2.2
      · exact not_isAlpha_of_number hp.2 c hc
  | bare element ih => exact ih hp hr h
  | prefixed op gap operand ih =>
    obtain ⟨-, h⟩ := h
    rw [headsStand_append, Gap.textOf_tokens, Token.text, ← lastOf_append] at h
    have happend : keepAll (signText op ++ gap.chars) = keepAll (signText op) ++
        keepAll gap.chars :=
      List.map_append
    rw [Spelling.headMarks, Spelling.pieces, Finder.fires_append, markedText_keepAll, happend,
      Finder.fires_append]
    exact ⟨⟨fires_signText op _ _, fires_quiet gap.not_isAlpha _⟩, ih hp.2 hr h.2⟩
  | single operand ih => exact ih hp hr h
  | linked first link rest ihFirst ihRest =>
    rw [Spelling.tokens, headsStand_append, headsStand_append, Link.textOf_tokens,
      Spelling.textOf_tokens] at h
    obtain ⟨hfirst, -, hrest⟩ := h
    rw [Spelling.headMarks, Spelling.pieces, Finder.fires_append, Finder.fires_append,
      markedText_append, markedText_keepAll, hp.1.markedText_headMarks, hp.2.2.markedText_headMarks,
      List.append_assoc]
    exact ⟨ihFirst hp.1 (link.dropWhile_isBlank (hp.2.2.dropWhile_isBlank hr)) hfirst,
      fires_linkText link _ _, ihRest hp.2.2 hr hrest⟩

end Spellings

end SkyResolver.Query
