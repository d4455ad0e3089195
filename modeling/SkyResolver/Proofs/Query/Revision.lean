import SkyResolver.Proofs.Query.Recovery

/-! Revised spellings: the same operands and links, with other lexemes and other blanks. A revision
of a valid spelling is valid again if every lexeme still ends where it did. Whether it does depends
on the text behind it only by the few questions that `Calmer` compares, and, behind a number, by the
two that `Tamer` compares. -/
namespace SkyResolver.Query
open SkyResolver.Text

/-- The second text prolongs no lexeme that the first one does not prolong. -/
structure Calmer (r r' : List Char) : Prop where
  word : atWordChar r = false → atWordChar r' = false
  colon : colonAhead r = false → colonAhead r' = false
  start : startsOperand r = false → startsOperand r' = false

/-- The second text prolongs no number that the first one does not prolong. -/
structure Tamer (r r' : List Char) : Prop where
  digit : digitAhead r' = true → digitAhead r = true
  point : pointAhead r' = true → pointAhead r = true

lemma Calmer.refl (r : List Char) : Calmer r r := ⟨id, id, id⟩

lemma Tamer.refl (r : List Char) : Tamer r r := ⟨id, id⟩

/-! ### Starts of valid spellings -/

/-- Where a valid spelling stands, an operand starts, without blanks in front. -/
lemma Spelling.Valid.front {k : Rank} {p : Spelling k} {r : List Char} (h : p.Valid r) :
    skipGap (p.text ++ r) = p.text ++ r ∧ startsOperand (p.text ++ r) = true := by
  have helement : ∀ {p : Spelling .element} {r : List Char}, p.Valid r →
      skipGap (p.text ++ r) = p.text ++ r ∧ startsOperand (p.text ++ r) = true := by
    intro p r h
    obtain ⟨hgap, -⟩ := Spelling.Valid.element h
    obtain ⟨_, _, hread, -⟩ := p.reads 0 r h
    refine ⟨hgap, ?_⟩
    rw [startsOperand_eq, hgap, startsElement_of_elementAt hread, Bool.or_true]
  induction p generalizing r with
  | atom => exact helement h
  | group => exact helement h
  | modified => exact helement h
  | bare element ih => exact ih h
  | prefixed op gap operand ih =>
    obtain ⟨hword, hoperand⟩ := h
    rw [Spelling.text, List.append_assoc, List.append_assoc]
    refine ⟨skipGap_sign op _, ?_⟩
    rw [startsOperand_eq, skipGap_sign, prefixAt_sign hword, Option.any_some,
      startsOperand_append gap.blank, (ih hoperand).2]
    rfl
  | single operand ih => exact ih h
  | linked first link rest ih _ =>
    have := ih h.1
    simpa [Spelling.text] using this

/-! ### Links -/

/-- The link with a keyword for a symbol and one blank in each gap. -/
def Link.plain : Link → Link
  | .and _ _ _ => .and .one true .one
  | .beside _ => .beside .one
  | .or _ _ => .or .one .one

lemma Link.plain_text_ne_nil (link : Link) : link.plain.text ≠ [] := by
  cases link <;> simp [Link.plain, Link.text, Gap.one]

lemma Link.colonAhead (link : Link) {s : List Char} (h : startsOperand s = true) :
    colonAhead (link.text ++ s) = false := by
  cases link with
  | and before keyword after =>
    rw [Link.text, List.append_assoc, colonAhead_append before.blank]
    cases keyword <;> rfl
  | beside gap =>
    rw [Link.text, colonAhead_append gap.blank]
    exact colonAhead_of_startsOperand h
  | or before after =>
    rw [Link.text, List.append_assoc, colonAhead_append before.blank]
    rfl

/-- Whether an operand starts at a link: not at a keyword, but at a symbol, which could be a word.
-/
def Link.starts : Link → Bool
  | .and _ keyword _ => !keyword
  | .beside _ => true
  | .or _ _ => false

lemma Link.startsOperand {link : Link} {s : List Char} (hlink : link.Valid s)
    (h : startsOperand s = true) : startsOperand (link.text ++ s) = link.starts := by
  have hcolon : ∀ g : Gap, Query.colonAhead (g.chars ++ s) = false := fun g => by
    rw [colonAhead_append g.blank, colonAhead_of_startsOperand h]
  cases link with
  | and before keyword after =>
    rw [Link.text, List.append_assoc, startsOperand_append before.blank, List.append_assoc]
    cases keyword with
    | true => exact startsOperand_reserved (.inl rfl) (hlink rfl) (hcolon after)
    | false =>
      obtain ⟨x, hx⟩ := Option.isSome_iff_exists.1
        (operandAt_symbol_isSome 0 .and (after.chars ++ s))
      exact startsOperand_of_operandAt hx
  | beside gap => rw [Link.text, startsOperand_append gap.blank, h, Link.starts]
  | or before after =>
    have hword : Query.atWordChar (after.chars ++ s) = false := hlink
    rw [Link.text, List.append_assoc, startsOperand_append before.blank]
    have hreserved := startsOperand_reserved (.inr rfl) hword (hcolon after)
    exact hreserved

lemma Gap.atWordChar_one (s : List Char) : atWordChar (Gap.one.chars ++ s) = false :=
  atWordChar_of_gap Gap.one.blank (by simp [Gap.one])

/-- The gap in front of a text keeps a word from going on unless it is empty. -/
lemma Gap.atWordChar (gap : Gap) {s t : List Char} (h : atWordChar s = false → atWordChar t = false)
    (hs : atWordChar (gap.chars ++ s) = false) : atWordChar (gap.chars ++ t) = false := by
  by_cases hne : gap.chars = []
  · rw [hne] at hs ⊢
    exact h hs
  · exact atWordChar_of_gap gap.blank hne

lemma Link.Valid.revise {link link' : Link} {s t : List Char} (h : link.Valid s)
    (hlink : link' = link ∨ link' = link.plain)
    (hword : atWordChar s = false → atWordChar t = false)
    (htakes : takesAnd s = false → takesAnd t = false) : link'.Valid t := by
  rcases hlink with rfl | rfl
  · cases link' with
    | and before keyword after => exact fun hk => after.atWordChar hword (h hk)
    | beside gap => exact htakes h
    | or before after => exact after.atWordChar hword h
  · cases link with
    | and before keyword after => exact fun _ => Gap.atWordChar_one t
    | beside gap => exact htakes h
    | or before after => exact Gap.atWordChar_one t

lemma Link.calmer {link link' : Link} {s t : List Char} (h : link.Valid s) (h' : link'.Valid t)
    (hlink : link' = link ∨ link' = link.plain) (hs : Query.startsOperand s = true)
    (ht : Query.startsOperand t = true) (hword : atWordChar s = false → atWordChar t = false) :
    Calmer (link.text ++ s) (link'.text ++ t) := by
  refine ⟨fun hw => ?_, fun _ => link'.colonAhead ht, fun hstart => ?_⟩
  · rcases hlink with rfl | rfl
    · cases link' with
      | and before keyword after =>
        rw [Link.text, List.append_assoc] at hw ⊢
        exact before.atWordChar (by cases keyword <;> exact id) hw
      | beside gap => exact gap.atWordChar hword hw
      | or before after =>
        rw [Link.text, List.append_assoc] at hw ⊢
        exact before.atWordChar (s := 'O' :: 'R' :: after.chars ++ s) id hw
    · cases link <;>
      · rw [Link.plain, Link.text]
        simp [Gap.one, Query.atWordChar, isPlain, isGap]
  · rw [Link.startsOperand h hs] at hstart
    rw [Link.startsOperand h' ht]
    rcases hlink with rfl | rfl
    · exact hstart
    · cases link with
      | and before keyword after => rfl
      | beside gap => exact hstart
      | or before after => rfl

/-! ### Revisions -/

/-- True when the last lexeme of a spelling is a number, or a modifier without one. -/
def Spelling.endsModified : {k : Rank} → Spelling k → Bool
  | _, .atom _ _ => false
  | _, .group _ _ _ _ => false
  | _, .modified _ _ _ _ => true
  | _, .bare element => element.endsModified
  | _, .prefixed _ _ operand => operand.endsModified
  | _, .single operand => operand.endsModified
  | _, .linked _ _ rest => rest.endsModified

/-- How one atom may take the place of another: whatever calmer text follows, it is valid there. If
it has no name in front, it prolongs no word, and it makes no operand of what a symbol in front of
it starts. -/
def Atom.Revises (colons : Bool) (atom atom' : Atom) : Prop :=
  ∀ r r', Calmer r r' → atom.Valid colons r → atom'.Valid colons r' ∧ (colons = false →
    (atWordChar (atom.text ++ r) = false → atWordChar (atom'.text ++ r') = false) ∧
    (takesAnd (atom.text ++ r) = false → takesAnd (atom'.text ++ r') = false))

/-- A word is an `AND` only if it starts with the symbol and its remainder starts an operand. -/
lemma IsTerm.takesAnd {w r : List Char} (h : IsTerm false w) (hr : atWordChar r = false) :
    takesAnd (w ++ r) = true ↔ ∃ v, w = '&' :: '&' :: v ∧ startsOperand (v ++ r) = true := by
  constructor
  · intro htakes
    obtain ⟨t, hand, hstart⟩ := (Option.any_eq_true _ _).1 htakes
    rcases afterAt_eq_some hand with ⟨hs, hword⟩ | hs <;> rw [skipGap_run h.run h.ne_nil] at hs
    · have hreserved := atReserved_append h.run hr
      have hk := keyword?_self (k := "AND") hword
      rw [h.free, hs, atReserved, show OperatorMark.and.word.toList = "AND".toList from rfl,
        hk] at hreserved
      cases hreserved
    · obtain ⟨c, v, rfl⟩ := List.exists_cons_of_ne_nil h.ne_nil
      simp only [List.cons_append, OperatorMark.symbol, List.nil_append, List.cons.injEq] at hs
      obtain ⟨rfl, hs⟩ := hs
      cases v with
      | nil =>
        rw [List.nil_append] at hs
        rw [hs] at hr
        cases atWordChar_cons (c := '&') (s := t) rfl ▸ hr
      | cons d v =>
        simp only [List.cons_append, List.cons.injEq] at hs
        obtain ⟨rfl, rfl⟩ := hs
        exact ⟨v, rfl, hstart⟩
  · rintro ⟨v, rfl, hstart⟩
    have : afterAt .and ('&' :: '&' :: v ++ r) = some (v ++ r) := rfl
    rw [Query.takesAnd, this]
    exact hstart

/-- A word may become another word of the same kind that starts no symbol. -/
lemma Atom.Revises.word {colons : Bool} {text text' : String}
    (h : IsTerm colons text.toList → IsTerm colons text'.toList)
    (hsymbol : colons = false → ∀ v, text'.toList = '&' :: '&' :: v → text' = text) :
    (Atom.word text).Revises colons (.word text') := by
  rintro r r' hr ⟨hterm, hword, hcolon⟩
  refine ⟨⟨h hterm, hr.word hword, hr.colon hcolon⟩, ?_⟩
  rintro rfl
  refine ⟨fun hw => ?_, fun htakes => ?_⟩
  · rw [Atom.text, atWordChar_of_run hterm.run hterm.ne_nil fun hc => (hterm.start _ hc).2.2 rfl]
      at hw
    cases hw
  · cases htakes' : takesAnd (text'.toList ++ r')
    · exact htakes'
    · obtain ⟨v, hv, hstart⟩ := ((h hterm).takesAnd (hr.word hword)).1 htakes'
      obtain rfl := hsymbol rfl v hv
      have hrun : Run false v := by
        have := hterm.run
        rw [hv] at this
        cases this with
        | plain _ tail => cases tail with | plain _ tail => exact tail
      have hback := startsOperand_run hrun (hr.word hword) hword
        (fun hc => ?_) (fun hs => ?_) hstart
      · have := (hterm.takesAnd hword).2 ⟨v, hv, hback⟩
        rw [Atom.text, this] at htakes
        cases htakes
      · cases hc' : Query.colonAhead r
        · rw [hr.colon hc'] at hc
          exact hc
        · rfl
      · cases hs' : startsOperand r
        · rw [hr.start hs'] at hs
          exact hs
        · rfl

/-- A phrase may become any other phrase. -/
lemma Atom.Revises.phrase {colons : Bool} {text text' : String}
    (h : IsPhrase text.toList → IsPhrase text'.toList) :
    (Atom.phrase text).Revises colons (.phrase text') := by
  refine fun r r' _ hphrase => ⟨h hphrase, fun _ => ?_⟩
  obtain ⟨t, ht⟩ := (h hphrase).exists_cons
  rw [Atom.text, Atom.text, ht]
  exact ⟨fun _ => rfl, fun _ => rfl⟩

/-- A range may become any other one whose lexemes are told apart. -/
lemma Atom.Revises.range {colons : Bool} {includeLow includeHigh : Bool} {g₁ g₂ g₃ g₄ : Gap}
    {low high : Bound} {atom : Atom}
    (h : ∀ r r', atom.Valid colons r →
      (Atom.range includeLow includeHigh g₁ low g₂ g₃ high g₄).Valid colons r') :
    atom.Revises colons (.range includeLow includeHigh g₁ low g₂ g₃ high g₄) := by
  refine fun r r' _ hvalid => ⟨h r r' hvalid, fun _ => ⟨fun _ => ?_, fun _ => ?_⟩⟩
  · cases includeLow <;> rfl
  · cases includeLow <;> rfl

lemma Bound.Valid.congr {bound : Bound} {s t : List Char} (h : bound.Valid s)
    (hruns : runsOn true s = false → runsOn true t = false) : bound.Valid t := by
  cases bound with
  | word text => exact ⟨h.1, hruns h.2⟩
  | phrase text => exact h

lemma runsOn_gap {g : List Char} (hg : IsGap g) (hne : g ≠ []) (s : List Char) :
    runsOn true (g ++ s) = false := by
  obtain ⟨c, t, rfl⟩ := List.exists_cons_of_ne_nil hne
  have hc : isGap c = true := hg c (by simp)
  have hcolon : c ≠ ':' := by rintro rfl; cases hc
  have hword := atWordChar_of_gap (s := s) hg hne
  simp only [runsOn, hword, Bool.false_or]
  simpa using hcolon

/-- The bounds of a range may change as long as the keyword still stands by itself; what stands
behind the range does not matter. -/
lemma Atom.Valid.bounds {colons : Bool} {includeLow includeHigh : Bool} {g₁ g₂ g₃ g₄ : Gap}
    {low low' high high' : Bound} {r r' : List Char}
    (h : (Atom.range includeLow includeHigh g₁ low g₂ g₃ high g₄).Valid colons r)
    (hlow : ∀ s, low.Valid s → low'.Valid s) (hhigh : ∀ s, high.Valid s → high'.Valid s)
    (hfront : g₃.chars = [] → ∀ s t, high.Valid s → atWordChar (high.text ++ s) = false →
      atWordChar (high'.text ++ t) = false) :
    (Atom.range includeLow includeHigh g₁ low' g₂ g₃ high' g₄).Valid colons r' := by
  obtain ⟨hl, hto, hh⟩ := h
  refine ⟨(hlow _ hl).congr fun hruns => ?_, ?_, (hhigh _ hh).congr fun hruns => ?_⟩
  · by_cases hne : g₂.chars = []
    · rw [hne] at hruns
      cases hruns
    · exact runsOn_gap g₂.blank hne _
  · by_cases hne : g₃.chars = []
    · rw [hne] at hto ⊢
      exact hfront hne _ _ hh hto
    · exact atWordChar_of_gap g₃.blank hne
  · by_cases hne : g₄.chars = []
    · rw [hne]
      cases includeHigh <;> simp [closingBracket, runsOn, atWordChar, isPlain, isSpecial]
    · exact runsOn_gap g₄.blank hne _

/-- A range is valid wherever it is valid somewhere. -/
lemma Atom.Valid.behind_range {colons : Bool} {includeLow includeHigh : Bool} {g₁ g₂ g₃ g₄ : Gap}
    {low high : Bound} {r r' : List Char}
    (h : (Atom.range includeLow includeHigh g₁ low g₂ g₃ high g₄).Valid colons r) :
    (Atom.range includeLow includeHigh g₁ low g₂ g₃ high g₄).Valid colons r' := by
  refine h.bounds (fun _ => id) (fun _ => id) fun _ s t hvalid hword => ?_
  cases high with
  | word text => rwa [Bound.text, atWordChar_append hvalid.1.run hvalid.1.ne_nil] at hword ⊢
  | phrase text =>
    obtain ⟨u, hu⟩ := IsPhrase.exists_cons hvalid
    rw [Bound.text, hu]
    rfl

/-- An atom may stay as it is. -/
lemma Atom.Revises.refl (colons : Bool) (atom : Atom) : atom.Revises colons atom := by
  cases atom with
  | word text => exact .word id fun _ _ _ => rfl
  | phrase text => exact .phrase id
  | range includeLow includeHigh g₁ low g₂ g₃ high g₄ => exact .range fun _ _ h => h.behind_range

/-- How one head may take the place of another. -/
def HeadRevises (head head' : Option FieldHead) : Prop :=
  head'.isSome = head.isSome ∧
    ((∀ h ∈ head, IsFieldName h.name.toList) → ∀ h ∈ head', IsFieldName h.name.toList)

/-- No number in front of the first spelling is prolonged by the second one. -/
def Spelling.Tame {k : Rank} (p p' : Spelling k) : Prop :=
  ∀ r r', p.Valid r → p'.Valid r' → Tamer (p.text ++ r) (p'.text ++ r')

/-- The second spelling is a revision of the first. Any element may also become a group. -/
inductive Spelling.Revises : {k : Rank} → Spelling k → Spelling k → Prop where
  | atom {head head' : Option FieldHead} {value value' : Atom} (hhead : HeadRevises head head')
      (hvalue : value.Revises head.isSome value') :
      Revises (.atom head value) (.atom head' value')
  | group {head head' : Option FieldHead} {inner inner' : Spelling .chain} (before before' : Gap)
      (after after' : Gap) (hhead : HeadRevises head head') (hinner : Revises inner inner') :
      Revises (.group head before inner after) (.group head' before' inner' after')
  | enclosed {element : Spelling .element} (before after : Gap) {inner : Spelling .chain}
      (hinner : ∀ r r', element.Valid r → inner.Valid (after.chars ++ ')' :: r')) :
      Revises element (.group none before inner after)
  | modified {operand operand' : Spelling .element} (gap gap' : Gap) (modifier : Modifier)
      (number : Option String) (hoperand : Revises operand operand') :
      Revises (.modified operand gap modifier number) (.modified operand' gap' modifier number)
  | bare {element element' : Spelling .element} (helement : Revises element element') :
      Revises (.bare element) (.bare element')
  | prefixed {operand operand' : Spelling .operand} (op : PrefixOp) (gap gap' : Gap)
      (hgap : op = .not → gap' = gap ∨ gap' = .one) (hoperand : Revises operand operand') :
      Revises (.prefixed op gap operand) (.prefixed op gap' operand')
  | single {operand operand' : Spelling .operand} (hoperand : Revises operand operand') :
      Revises (.single operand) (.single operand')
  | linked {first first' : Spelling .operand} {link link' : Link} {rest rest' : Spelling .chain}
      (hfirst : Revises first first') (hlink : link' = link ∨ link' = link.plain)
      (hrest : Revises rest rest')
      (htame : first'.endsModified = true → link'.text = [] → rest.Tame rest') :
      Revises (.linked first link rest) (.linked first' link' rest')

/-- A field is no `AND`, whatever it is called. -/
lemma FieldHead.takesAnd {head : FieldHead} (h : IsFieldName head.name.toList) (s : List Char) :
    takesAnd (head.text ++ s) = false := by
  have hrun := h.run
  have hrest := runsOn_gap_colon (s := head.after.chars ++ s) head.before.blank
  have htext : head.text ++ s =
      head.name.toList ++ (head.before.chars ++ ':' :: (head.after.chars ++ s)) := by
    simp [FieldHead.text]
  unfold Query.takesAnd
  cases hand : afterAt .and (head.text ++ s) with
  | none => rfl
  | some t =>
    rw [Option.any_some]
    rcases afterAt_eq_some hand with ⟨hs, hword⟩ | hs <;> rw [head.skipGap h, htext] at hs
    · have hplain := plain_of_mem_keyword (k := "AND") (by simp)
      have hk := keyword?_self (k := "AND") hword
      rw [show "AND".toList = OperatorMark.and.word.toList from rfl, ← hs,
        keyword?_append hplain hrun hrest, Option.map_eq_some_iff] at hk
      obtain ⟨v, hv, rfl⟩ := hk
      obtain ⟨-, rfl⟩ := eq_of_keyword? hplain hrun rfl hv
      exact (halts_of_colonAhead (colonAhead_iff.2 ⟨_, _, head.before.blank, rfl⟩)).startsOperand
    · obtain ⟨c, u, hname, hc, -⟩ := h
      rw [hname] at hs
      simp only [List.cons_append, OperatorMark.symbol, List.cons.injEq] at hs
      rw [hs.1] at hc
      cases hc

lemma FieldHead.atWordChar {head : FieldHead} (h : IsFieldName head.name.toList) (s : List Char) :
    atWordChar (head.text ++ s) = true := by
  obtain ⟨c, u, hname, hc, -⟩ := h
  rw [FieldHead.text, hname]
  exact atWordChar_cons (isPlain_of_isNameStart hc)

/-- Nothing is prolonged by a parenthesis that closes, or by a modifier. -/
lemma Calmer.of_halt (gap : Gap) {c : Char} (hc : c = ')' ∨ c = '^' ∨ c = '~') (r s : List Char) :
    Calmer r (gap.chars ++ c :: s) := by
  refine ⟨fun _ => ?_, fun _ => ?_, fun _ => ?_⟩
  · by_cases hne : gap.chars = []
    · rw [hne]
      rcases hc with rfl | rfl | rfl <;> simp [atWordChar, isPlain, isSpecial]
    · exact atWordChar_of_gap gap.blank hne
  · rw [colonAhead_append gap.blank]
    rcases hc with rfl | rfl | rfl <;> rfl
  · rw [startsOperand_append gap.blank]
    refine Halts.startsOperand (.inr ⟨c, s, ?_, by tauto⟩)
    rcases hc with rfl | rfl | rfl <;> rfl

lemma not_digitAhead {c : Char} (s : List Char) (hdigit : c.isDigit = false) (hpoint : c ≠ '.') :
    digitAhead (c :: s) = false ∧ pointAhead (c :: s) = false := by
  refine ⟨by simp [digitAhead, hdigit], ?_⟩
  unfold pointAhead
  split
  · rename_i h
    cases h
    exact absurd rfl hpoint
  · rfl

lemma not_digitAhead_gap {g : List Char} (hg : IsGap g) (hne : g ≠ []) (s : List Char) :
    digitAhead (g ++ s) = false ∧ pointAhead (g ++ s) = false := by
  obtain ⟨c, t, rfl⟩ := List.exists_cons_of_ne_nil hne
  have hc : isGap c = true := hg c (by simp)
  simp only [isGap, Bool.or_eq_true, beq_iff_eq] at hc
  rcases hc with ((rfl | rfl) | rfl) | rfl <;> exact not_digitAhead _ rfl (by decide)

lemma Tamer.of_false {r r' : List Char} (h : digitAhead r' = false ∧ pointAhead r' = false) :
    Tamer r r' := by
  refine ⟨fun hdigit => ?_, fun hpoint => ?_⟩
  · rw [h.1] at hdigit
    cases hdigit
  · rw [h.2] at hpoint
    cases hpoint

lemma Tamer.of_halt (gap : Gap) {c : Char} (hc : c = ')' ∨ c = '^' ∨ c = '~') (r s : List Char) :
    Tamer r (gap.chars ++ c :: s) := by
  refine .of_false ?_
  by_cases hne : gap.chars = []
  · rw [hne]
    rcases hc with rfl | rfl | rfl <;> exact not_digitAhead _ rfl (by decide)
  · exact not_digitAhead_gap gap.blank hne _

lemma Link.not_digitAhead {link : Link} (h : link.text ≠ []) (s : List Char) :
    digitAhead (link.text ++ s) = false ∧ pointAhead (link.text ++ s) = false := by
  have hgap : ∀ (gap : Gap) {c : Char} (s : List Char), c.isDigit = false → c ≠ '.' →
      digitAhead (gap.chars ++ c :: s) = false ∧ pointAhead (gap.chars ++ c :: s) = false := by
    intro gap c s hdigit hpoint
    by_cases hne : gap.chars = []
    · rw [hne]
      exact Query.not_digitAhead s hdigit hpoint
    · exact not_digitAhead_gap gap.blank hne _
  cases link with
  | and before keyword after =>
    rw [Link.text, List.append_assoc]
    cases keyword <;> exact hgap before _ rfl (by decide)
  | beside gap => exact not_digitAhead_gap gap.blank h s
  | or before after =>
    rw [Link.text, List.append_assoc]
    exact hgap before _ rfl (by decide)

lemma Link.tamer {link link' : Link} (hlink : link' = link ∨ link' = link.plain) {s s' : List Char}
    (htame : link'.text = [] → Tamer s s') : Tamer (link.text ++ s) (link'.text ++ s') := by
  by_cases hne : link'.text = []
  · rcases hlink with rfl | rfl
    · rw [hne]
      exact htame hne
    · exact absurd hne link.plain_text_ne_nil
  · exact .of_false (Link.not_digitAhead hne s')

lemma not_digitAhead_of_not_word {s : List Char} (h : atWordChar s = false) :
    digitAhead s = false := by
  cases s with
  | nil => rfl
  | cons c s =>
    cases hc : c.isDigit
    · simpa [digitAhead] using hc
    · rw [atWordChar_cons (isPlain_of_isDigit hc)] at h
      cases h

/-- With the same character in front, only what follows a point matters. -/
lemma Tamer.cons {c : Char} {s s' : List Char}
    (h : c = '.' → digitAhead s' = true → digitAhead s = true) : Tamer (c :: s) (c :: s') := by
  refine ⟨fun hdigit => by simpa [digitAhead] using hdigit, fun hpoint => ?_⟩
  unfold pointAhead at hpoint ⊢
  split at hpoint
  · rename_i hcons
    cases hcons
    exact h rfl hpoint
  · cases hpoint

lemma Tamer.of_head {head : FieldHead} (h : IsFieldName head.name.toList) (r s : List Char) :
    Tamer r (head.text ++ s) := by
  obtain ⟨c, t, hname, hc, -⟩ := h
  refine .of_false ?_
  rw [FieldHead.text, hname]
  refine not_digitAhead _ ?_ ?_
  · cases hdigit : c.isDigit
    · rfl
    · rw [not_isNameStart_of_isDigit hdigit] at hc
      cases hc
  · rintro rfl
    cases hc

lemma Spelling.Tame.named (p : Spelling .element) (head : FieldHead) (value : Atom) :
    p.Tame (.atom (some head) value) := by
  intro r r' _ h
  rw [Spelling.text, headText, List.append_assoc]
  exact .of_head (h.1 head rfl) _ _

lemma Spelling.Tame.phrase (p : Spelling .element) (text : String) :
    p.Tame (.atom none (.phrase text)) := by
  intro r r' _ h
  obtain ⟨t, ht⟩ := IsPhrase.exists_cons h.2
  rw [Spelling.text, headText, List.nil_append, Atom.text, ht]
  exact .of_false (not_digitAhead _ rfl (by decide))

lemma Spelling.Tame.range (p : Spelling .element) (includeLow includeHigh : Bool) (g₁ : Gap)
    (low : Bound) (g₂ g₃ : Gap) (high : Bound) (g₄ : Gap) :
    p.Tame (.atom none (.range includeLow includeHigh g₁ low g₂ g₃ high g₄)) :=
  fun _ _ _ _ => .of_false (by cases includeLow <;> exact not_digitAhead _ rfl (by decide))

lemma Spelling.Tame.atom (value : Atom) : (Spelling.atom none value).Tame (.atom none value) := by
  cases value with
  | phrase text => exact .phrase _ text
  | range => exact .range _ _ _ _ _ _ _ _ _
  | word text =>
    rintro r r' ⟨-, hterm, -⟩ ⟨-, -, hword, -⟩
    simp only [Spelling.text, Atom.text, headText, List.nil_append]
    obtain ⟨c, s, hs⟩ := List.exists_cons_of_ne_nil hterm.ne_nil
    rw [hs]
    refine .cons fun _ hdigit => ?_
    cases s with
    | nil => exact absurd hdigit (by simp [not_digitAhead_of_not_word hword])
    | cons d s => simpa [digitAhead] using hdigit

lemma Spelling.Tame.group (p : Spelling .element) (head : Option FieldHead) (before : Gap)
    (inner : Spelling .chain) (after : Gap) : p.Tame (.group head before inner after) := by
  intro r r' _ h
  cases head with
  | none => exact .of_false (not_digitAhead _ rfl (by decide))
  | some head =>
    rw [Spelling.text, headText, List.append_assoc]
    exact .of_head (h.1 head rfl) _ _

lemma Spelling.Tame.prefixed (p : Spelling .operand) (op : PrefixOp) (gap : Gap)
    (operand : Spelling .operand) : p.Tame (.prefixed op gap operand) :=
  fun _ _ _ _ => .of_false (by cases op <;> exact not_digitAhead _ rfl (by decide))

lemma Spelling.Tame.modified {operand operand' : Spelling .element} (h : operand.Tame operand')
    (gap : Gap) (modifier : Modifier) (number : Option String) :
    (Spelling.modified operand gap modifier number).Tame
      (.modified operand' gap modifier number) := by
  intro r r' hr hr'
  simpa [Spelling.text] using h _ _ hr.1 hr'.1

lemma Spelling.Tame.linked {first first' : Spelling .operand} (h : first.Tame first') (link : Link)
    (rest rest' : Spelling .chain) :
    (Spelling.linked first link rest).Tame (.linked first' link rest') := by
  intro r r' hr hr'
  simpa [Spelling.text] using h _ _ hr.1 hr'.1

lemma Modifier.mark_halts (modifier : Modifier) :
    modifier.mark = ')' ∨ modifier.mark = '^' ∨ modifier.mark = '~' := by
  cases modifier <;> simp [Modifier.mark]

lemma named_front {head head' : FieldHead}
    (h : ∀ h ∈ some head, IsFieldName h.name.toList)
    (h' : ∀ h ∈ some head', IsFieldName h.name.toList) (s r s' r' : List Char) :
    (atWordChar (headText (some head) ++ s ++ r) = false →
      atWordChar (headText (some head') ++ s' ++ r') = false) ∧
    (takesAnd (headText (some head) ++ s ++ r) = false →
      takesAnd (headText (some head') ++ s' ++ r') = false) := by
  simp only [headText, List.append_assoc]
  refine ⟨fun hword => ?_, fun _ => head'.takesAnd (h' head' rfl) _⟩
  rw [head.atWordChar (h head rfl)] at hword
  cases hword

/-- A revision starts no worse than what it revises. -/
lemma Spelling.Revises.front {k : Rank} {p p' : Spelling k} (h : p.Revises p') {r r' : List Char}
    (hp : p.Valid r) (hp' : p'.Valid r') (hr : Calmer r r') :
    (atWordChar (p.text ++ r) = false → atWordChar (p'.text ++ r') = false) ∧
      (takesAnd (p.text ++ r) = false → takesAnd (p'.text ++ r') = false) := by
  induction h generalizing r r' with
  | @atom head head' value value' hhead hvalue =>
    obtain ⟨hname, hvalid⟩ := hp
    obtain ⟨hname', hvalid'⟩ := hp'
    cases head <;> cases head' <;> try cases hhead.1
    · exact (hvalue r r' hr hvalid).2 rfl
    · exact named_front hname hname' _ _ _ _
  | @group head head' _ _ before before' after after' hhead hinner ih =>
    obtain ⟨hname, hvalid⟩ := hp
    obtain ⟨hname', hvalid'⟩ := hp'
    cases head <;> cases head' <;> try cases hhead.1
    · exact ⟨fun _ => rfl, fun _ => rfl⟩
    · exact named_front hname hname' _ _ _ _
  | enclosed before after hinner => exact ⟨fun _ => rfl, fun _ => rfl⟩
  | modified gap gap' modifier number hoperand ih =>
    have := ih hp.1 hp'.1 (.of_halt gap' modifier.mark_halts _ _)
    simpa [Spelling.text] using this
  | bare helement ih => exact ih hp hp' hr
  | prefixed op gap gap' hgap hoperand ih =>
    rw [Spelling.text, Spelling.text]
    refine ⟨fun hword => ?_, fun _ => by cases op <;> rfl⟩
    cases op <;> cases hword
  | single hoperand ih => exact ih hp hp' hr
  | linked hfirst hlink hrest htame ihFirst ihRest =>
    obtain ⟨hp₁, hl, hp₂⟩ := hp
    obtain ⟨hp₁', hl', hp₂'⟩ := hp'
    have hword := (ihRest hp₂ hp₂' hr).1
    have := ihFirst hp₁ hp₁' (Link.calmer hl hl' hlink hp₂.front.2 hp₂'.front.2 hword)
    simpa [Spelling.text] using this

/-- A revision of a valid spelling is valid in front of every calmer text. -/
theorem Spelling.Revises.valid {k : Rank} {p p' : Spelling k} (h : p.Revises p') {r r' : List Char}
    (hp : p.Valid r) (hr : Calmer r r') (htame : p'.endsModified = true → Tamer r r') :
    p'.Valid r' := by
  induction h generalizing r r' with
  | atom hhead hvalue =>
    obtain ⟨hname, hvalid⟩ := hp
    refine ⟨hhead.2 hname, ?_⟩
    rw [hhead.1]
    exact (hvalue r r' hr hvalid).1
  | group before before' after after' hhead hinner ih =>
    obtain ⟨hname, hvalid⟩ := hp
    exact ⟨hhead.2 hname, ih hvalid (.of_halt after' (.inl rfl) _ _)
      fun _ => .of_halt after' (.inl rfl) _ _⟩
  | enclosed before after hinner =>
    exact ⟨by simp, hinner r r' hp⟩
  | modified gap gap' modifier number hoperand ih =>
    obtain ⟨hvalid, hnumber⟩ := hp
    obtain ⟨hdigit, hpoint⟩ := htame rfl
    exact ⟨ih hvalid (.of_halt gap' modifier.mark_halts _ _)
      fun _ => .of_halt gap' modifier.mark_halts _ _, optionalNumber_congr hnumber hdigit hpoint⟩
  | bare helement ih => exact ih hp hr htame
  | prefixed op gap gap' hgap hoperand ih =>
    obtain ⟨hword, hvalid⟩ := hp
    have := ih hvalid hr htame
    refine ⟨?_, this⟩
    intro hop
    rcases hgap hop with rfl | rfl
    · exact gap'.atWordChar (hoperand.front hvalid this hr).1 (hword hop)
    · exact Gap.atWordChar_one _
  | single hoperand ih => exact ih hp hr htame
  | linked hfirst hlink hrest htame' ihFirst ihRest =>
    obtain ⟨hfirst', hlink', hrest'⟩ := hp
    have hq := ihRest hrest' hr htame
    obtain ⟨hword, htakes⟩ := hrest.front hrest' hq hr
    have hl := hlink'.revise hlink hword htakes
    refine ⟨ihFirst hfirst' ?_ ?_, hl, hq⟩
    · exact Link.calmer hlink' hl hlink hrest'.front.2 hq.front.2 hword
    · exact fun hends => Link.tamer hlink fun hempty => htame' hends hempty _ _ hrest' hq

end SkyResolver.Query
