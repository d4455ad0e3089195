import SkyResolver.Proofs.Query.Heads

/-! The exchange of heads. Where fields start, their heads are exchanged as wholes, so a query stays
a query behind the exchange unless the name of another field ends in `-object`. -/
namespace SkyResolver.Query
open SkyResolver.Text

/-! ### Heads of fields -/

/-- The name ends in `-object`, in any case of letters. -/
def endsInObject (name : String) : Bool :=
  equalIgnoringCase (name.toList.drop (name.toList.length - 7)) "-object".toList

lemma endsInObject_of_append {name : String} {u v : List Char} (hname : name.toList = u ++ '-' :: v)
    (hv : equalIgnoringCase v "object".toList = true) : endsInObject name = true := by
  have hlength : v.length = 6 := by simpa using congrArg List.length (eq_of_beq hv)
  have hdrop : name.toList.drop (name.toList.length - 7) = '-' :: v := by
    rw [hname, List.length_append, List.length_cons, hlength, Nat.add_sub_cancel, List.drop_left]
  rw [endsInObject, hdrop]
  exact hv

/-- Neither a blank nor a colon. -/
def inHeadName (c : Char) : Bool := !isBlank c && c != ':'

lemma inHeadName_of_isAlphanum {c : Char} (h : c.isAlphanum = true) : inHeadName c = true := by
  have hcolon : c ≠ ':' := by
    rintro rfl
    cases h
  simp [inHeadName, not_isBlank_of_isAlphanum h, hcolon]

/-- A character of a name that starts a field is a hyphen. -/
lemma IsFieldName.inHeadName {name : List Char} (h : IsFieldName name) :
    ∀ c ∈ name, Query.inHeadName c = true ∧ (startsField c = true → c = '-') := by
  have hchar : ∀ {c : Char}, c.isAlphanum = true →
      Query.inHeadName c = true ∧ (startsField c = true → c = '-') := by
    refine fun {c} hc => ⟨inHeadName_of_isAlphanum hc, fun hstarts => ?_⟩
    simp only [startsField, not_isBlank_of_isAlphanum hc, Bool.false_or, Bool.or_eq_true,
      beq_iff_eq] at hstarts
    obtain (rfl | rfl) | rfl := hstarts
    · cases hc
    · cases hc
    · rfl
  obtain ⟨c, s, rfl, hc, hs⟩ := h
  refine List.forall_mem_cons.2 ⟨?_, fun d hd => ?_⟩
  · simp only [isNameStart, Bool.or_eq_true, beq_iff_eq] at hc
    obtain (rfl | rfl) | hc := hc
    · decide
    · decide
    · exact hchar (by simp [Char.isAlphanum, hc])
  · have := hs d hd
    simp only [isNameChar, Bool.or_eq_true, beq_iff_eq] at this
    obtain ((rfl | rfl) | rfl) | hd := this
    · decide
    · decide
    · decide
    · exact hchar hd

lemma takeWhile_append_stop {p : Char → Bool} {s t : List Char} (hs : ∀ c ∈ s, p c = true)
    (ht : ∀ c ∈ t.head?, p c = false) : (s ++ t).takeWhile p = s := by
  rw [List.takeWhile_append_of_pos hs]
  cases t with
  | nil => simp
  | cons c t => simp [ht c rfl]

/-- The name in front of a colon is found as a whole. -/
lemma eq_of_afterObjectHead? {v rest s : List Char} {gap : Gap} (hv : ∀ c ∈ v, inHeadName c = true)
    (h : afterObjectHead? (v ++ (gap.chars ++ ':' :: s)) = some rest) :
    equalIgnoringCase v "object".toList = true := by
  obtain ⟨word, blanks, htext, hword, hblanks⟩ := afterObjectHead?_eq_some h
  have hstop : ∀ {b : List Char} (t : List Char), (∀ c ∈ b, isBlank c = true) →
      ∀ c ∈ (b ++ ':' :: t).head?, inHeadName c = false := by
    rintro (_ | ⟨d, b⟩) t hb c hc
    · cases hc
      rfl
    · cases hc
      have hblank : isBlank d = true := hb d List.mem_cons_self
      simp [inHeadName, hblank]
  have htake := congrArg (List.takeWhile inHeadName) htext
  rw [takeWhile_append_stop hv (hstop s fun c hc => isBlank_of_isGap (gap.blank c hc)),
    takeWhile_append_stop (fun c hc => inHeadName_of_isAlphanum (by
      simp [Char.isAlphanum, isAlpha_of_equalIgnoringCase hword c hc])) (hstop rest hblanks)]
        at htake
  rwa [htake]

/-- No head is found inside the name of a field that does not end in `-object`. -/
lemma fires_fieldName {name : String} (hname : IsFieldName name.toList)
    (hends : endsInObject name = false) {previous : Option Char}
    (hstart : ¬(previous.all startsField = true ∧ isObjectField name = true)) (gap : Gap)
    (s : List Char) : headFinder.Fires (gap.chars ++ ':' :: s) previous (keepAll name.toList) := by
  rw [Finder.fires_keepAll_iff]
  intro u c v huv
  rw [Option.eq_none_iff_forall_ne_some]
  intro old hfind
  obtain ⟨hprevious, -, -, rest, -, -, hrest, -⟩ := exists_of_headFinder hfind
  have hv : ∀ d ∈ c :: v, inHeadName d = true := fun d hd =>
    (hname.inHeadName d (by rw [huv]; exact List.mem_append_right u hd)).1
  have hobject := eq_of_afterObjectHead? hv hrest
  rcases List.eq_nil_or_concat u with rfl | ⟨u, d, rfl⟩
  · exact hstart ⟨hprevious, by rw [isObjectField, huv]; exact hobject⟩
  · rw [List.concat_eq_append] at huv hprevious
    rw [lastOf_append] at hprevious
    obtain rfl := (hname.inHeadName d (by rw [huv]; simp)).2 hprevious
    rw [List.append_assoc, List.singleton_append] at huv
    rw [endsInObject_of_append huv hobject] at hends
    cases hends

lemma exchanged_fieldHead {h : FieldHead} (hname : IsFieldName h.name.toList)
    (hends : endsInObject h.name = false) (field : String) (previous : Option Char)
    (s : List Char) :
    exchanged (objectHead field) previous (h.text ++ s) =
      (if previous.all startsField then h.renamed field else h).text ++
        exchanged (objectHead field) (lastOf previous h.text) s := by
  have htext : ∀ h : FieldHead, h.text ++ s =
      h.name.toList ++ (h.before.chars ++ ':' :: (h.after.chars ++ s)) := by simp [FieldHead.text]
  have hbehind : ∀ previous, exchanged (objectHead field) previous (':' :: (h.after.chars ++ s)) =
      ':' :: (h.after.chars ++ exchanged (objectHead field)
        (lastOf (some ':') h.after.chars) s) := by
    intro previous
    rw [exchanged_cons (headFinder_of_not_isAlpha rfl _), exchanged_quiet h.after.not_isAlpha]
  by_cases hobject : previous.all startsField = true ∧ isObjectField h.name = true
  · have hfound : h.text ++ s = h.name.toList ++ (h.before.chars ++ [':']) ++
        (h.after.chars ++ s) := by
      simp [FieldHead.text]
    rw [hfound, exchanged_head hobject.1 hobject.2
      (fun c hc => isBlank_of_isGap (h.before.blank c hc)), exchanged_quiet h.after.not_isAlpha,
      if_pos hobject.1, FieldHead.renamed, if_pos hobject.2]
    simp [FieldHead.text, objectHead, Gap.empty]
  · have hsame : (if previous.all startsField then h.renamed field else h) = h := by
      split
      · rename_i hprevious
        exact if_neg fun h => hobject ⟨hprevious, h⟩
      · rfl
    rw [htext, exchanged_of_fires (fires_fieldName hname hends hobject h.before _),
      exchanged_quiet h.before.not_isAlpha, hbehind, hsame]
    simp [FieldHead.text]

/-! ### Tokens with exchanged heads -/

/-- The token behind `previous` with all heads in it exchanged. -/
def Token.exchanged (field : String) (previous : Option Char) : Token → Token
  | head h => .head (if previous.all startsField then h.renamed field else h)
  | atom value => .atom (value.exchanged (objectHead field) previous)
  | token => token

def exchangedTokens (field : String) : Option Char → List Token → List Token
  | _, [] => []
  | previous, token :: tokens =>
    token.exchanged field previous :: exchangedTokens field (lastOf previous token.text) tokens

lemma not_isAlpha_of_number {number : Option String} {r : List Char}
    (h : optionalNumber (optionalChars number ++ r) = (number, r)) :
    ∀ c ∈ optionalChars number, c.isAlpha = false := by
  have hdigit : ∀ {c : Char}, c.isDigit = true → c.isAlpha = false := by
    intro c hc
    obtain ⟨hlow, hhigh⟩ := toNat_of_isDigit hc
    refine Bool.eq_false_iff.2 fun halpha => ?_
    have := toNat_of_isAlpha halpha
    omega
  cases number with
  | none => simp [optionalChars]
  | some text =>
    unfold optionalNumber at h
    split at h
    · rename_i text' rest hnumber
      cases h
      intro c hc
      obtain ⟨-, -, ⟨w, f, htext, -, hw, hf⟩ | ⟨-, hdigits, -⟩⟩ := number?_eq_some hnumber
      · rw [show optionalChars (some text) = w ++ '.' :: f from htext, List.mem_append,
          List.mem_cons] at hc
        obtain hc | rfl | hc := hc
        · exact hdigit (hw c hc)
        · rfl
        · exact hdigit (hf c hc)
      · exact hdigit (hdigits c hc)
    · cases h

/-- Behind its first character nothing is found in a keyword. -/
lemma fires_keyword {k r : List Char} {previous : Option Char} {c : Char}
    (hfind : headFinder.find previous (c :: (k ++ r)) = none)
    (hk : (c :: k).any startsField = false) :
    headFinder.Fires r previous (keepAll (c :: k)) := by
  refine Finder.fires_keepAll_iff.2 fun u d v hs => ?_
  rcases List.eq_nil_or_concat u with rfl | ⟨u, e, rfl⟩
  · obtain ⟨rfl, rfl⟩ := List.cons.inj hs
    exact hfind
  · rw [List.concat_eq_append] at hs ⊢
    rw [lastOf_append]
    have he : startsField e = false := by simpa using List.any_eq_false.1 hk e (by rw [hs]; simp)
    exact headFinder_eq_none he _

lemma fires_signText (op : PrefixOp) (previous : Option Char) (r : List Char) :
    headFinder.Fires r previous (keepAll (signText op)) := by
  cases op with
  | not => exact fires_keyword (headFinder_of_toLower (by decide) _) rfl
  | plus | minus => exact fires_quiet (List.forall_mem_singleton.2 rfl) r

lemma fires_andText (keyword : Bool) (previous : Option Char) (r : List Char) :
    headFinder.Fires r previous (keepAll (andText keyword)) := by
  cases keyword with
  | true => exact fires_keyword (headFinder_of_toLower (by decide) _) rfl
  | false => exact fires_quiet (List.forall_mem_cons.2 ⟨rfl, List.forall_mem_singleton.2 rfl⟩) r

lemma fires_or (previous : Option Char) (r : List Char) :
    headFinder.Fires r previous (keepAll ['O', 'R']) := by
  have hnone : afterObjectHead? ('O' :: 'R' :: r) = none := rfl
  exact fires_keyword (by simp [headFinder, hnone]) rfl

lemma Atom.Valid.exchanged_text {value : Atom} {colons : Bool} {r : List Char}
    (h : value.Valid colons r) (hcolon : (r.dropWhile isBlank).head? ≠ some ':') (head : List Char)
    (previous : Option Char) : Query.exchanged head previous (value.text ++ r) =
      (value.exchanged head previous).text ++ Query.exchanged head
        (lastOf previous value.text) r := by
  cases value with
  | word text =>
    simpa [Atom.exchanged, Atom.text] using exchanged_append head previous _ ⟨h.2.1, hcolon⟩
  | phrase text => simpa [Atom.exchanged, Atom.text] using exchanged_phrase h r
  | range =>
    rw [exchanged_range h]
    simp [Atom.text]

/-- Behind a token the exchange goes on by itself. -/
lemma Token.Stops.exchanged_text {token : Token} {stage : Stage} {r : List Char}
    (h : token.Stops stage r) (hcolon : ∀ value, token = .atom value →
      (r.dropWhile isBlank).head? ≠ some ':')
    (hends : ∀ h, token = .head h → endsInObject h.name = false) (field : String)
    (previous : Option Char) : Query.exchanged (objectHead field) previous (token.text ++ r) =
      (token.exchanged field previous).text ++
        Query.exchanged (objectHead field) (lastOf previous token.text) r := by
  cases token with
  | gap c =>
    exact exchanged_quiet (s := [c]) (Gap.not_isAlpha ⟨[c], List.forall_mem_singleton.2 h⟩) r
  | opening | closing => exact exchanged_quiet (List.forall_mem_singleton.2 rfl) r
  | modifier m number =>
    refine exchanged_quiet (List.forall_mem_cons.2 ⟨?_, not_isAlpha_of_number h⟩) r
    cases m <;> rfl
  | head head => exact exchanged_fieldHead h (hends head rfl) field previous r
  | atom value => exact h.1.exchanged_text (hcolon value rfl) _ previous
  | sign op => exact exchanged_of_fires (fires_signText op previous r)
  | and keyword => exact exchanged_of_fires (fires_andText keyword previous r)
  | or => exact exchanged_of_fires (fires_or previous r)

lemma dropWhile_isBlank_cons {c : Char} (hc : isBlank c = false) (hcolon : c ≠ ':')
    (s : List Char) :
    ((c :: s).dropWhile isBlank).head? ≠ some ':' := by
  rw [List.dropWhile_cons_of_neg (by simp [hc])]
  simpa using hcolon

lemma dropWhile_isBlank_run {w r : List Char} (hw : Run false w)
    (hr : (r.dropWhile isBlank).head? ≠ some ':') :
    ((w ++ r).dropWhile isBlank).head? ≠ some ':' := by
  induction hw with
  | nil => exact hr
  | escaped c _ _ => exact dropWhile_isBlank_cons rfl (by decide) _
  | @plain c w hc _ ih =>
    by_cases hblank : isBlank c = true
    · rwa [List.cons_append, List.dropWhile_cons_of_pos hblank]
    · refine dropWhile_isBlank_cons (by simpa using hblank) ?_ _
      rintro rfl
      cases hc

/-- Where no value is expected, no colon comes next. -/
lemma Completes.dropWhile_isBlank {stage : Stage} {depth : Nat} {tokens : List Token}
    (h : Completes stage depth tokens) (hstage : stage ≠ .value) :
    ((Token.textOf tokens).dropWhile isBlank).head? ≠ some ':' := by
  induction h with
  | nil => simp
  | @cons stage stage' depth depth' token tokens hnext hdepth hstops rest ih =>
    cases token with
    | gap c =>
      have hsame : stage = stage' := by
        cases stage <;> first | exact absurd rfl hstage | exact Option.some.inj hnext
      rw [Token.textOf_cons, Token.text, List.singleton_append,
        List.dropWhile_cons_of_pos (isBlank_of_isGap hstops)]
      exact ih (hsame ▸ hstage)
    | sign op => cases op <;> exact dropWhile_isBlank_cons rfl (by decide) _
    | head head =>
      obtain ⟨c, s, hname, -, -⟩ := id hstops
      have hc := (IsFieldName.inHeadName hstops c (by simp [hname])).1
      simp only [inHeadName, Bool.and_eq_true, Bool.not_eq_true', bne_iff_ne] at hc
      rw [Token.textOf_cons, Token.text, FieldHead.text, hname]
      exact dropWhile_isBlank_cons hc.1 hc.2 _
    | atom value =>
      cases value with
      | word text =>
        obtain rfl : Stage.done = stage' := Option.some.inj hnext
        have hcolons : stage.colons = false := by
          cases stage <;> first | exact absurd rfl hstage | rfl
        have hrun := hstops.1.1.run
        rw [hcolons] at hrun
        exact dropWhile_isBlank_run hrun (ih (by simp))
      | phrase text =>
        obtain ⟨s, hs⟩ := IsPhrase.exists_cons hstops.1
        rw [Token.textOf_cons, Token.text, Atom.text, hs]
        exact dropWhile_isBlank_cons rfl (by decide) _
      | range includeLow => cases includeLow <;> exact dropWhile_isBlank_cons rfl (by decide) _
    | opening => exact dropWhile_isBlank_cons rfl (by decide) _
    | closing => exact dropWhile_isBlank_cons rfl (by decide) _
    | modifier m number => cases m <;> exact dropWhile_isBlank_cons rfl (by decide) _
    | and keyword => cases keyword <;> exact dropWhile_isBlank_cons rfl (by decide) _
    | or => exact dropWhile_isBlank_cons rfl (by decide) _

section Tokens
variable {field : String} (hfield : IsFreeName field)
include hfield

lemma Atom.Valid.exchanged {value : Atom} {colons : Bool} {r r' : List Char}
    {previous : Option Char} (h : value.Valid colons r)
    (hword : atWordChar r = false → atWordChar r' = false) (hcolon : colonAhead r' = false) :
    (value.exchanged (objectHead field) previous).Valid colons r' := by
  cases value with
  | word text =>
    obtain ⟨hterm, hr, -⟩ := h
    exact ⟨by simpa using (isTerm_exchanged hfield hterm).1, hword hr, hcolon⟩
  | phrase text => simpa [Atom.exchanged, Atom.Valid] using isPhrase_exchanged hfield h
  | range includeLow includeHigh g₁ low g₂ g₃ high g₄ =>
    refine h.bounds (fun s => Bound.Valid.exchanged hfield)
      (fun s => Bound.Valid.exchanged hfield) ?_
    intro _ s t hhigh hs
    cases high with
    | word text =>
      obtain ⟨hbound, -⟩ := hhigh
      have hexchanged : IsBound (Query.exchanged (objectHead field) (lastOf (some 'O') g₃.chars)
          text.toList) := isBound_exchanged hfield hbound
      rw [Bound.text, atWordChar_append hbound.run hbound.ne_nil] at hs
      rw [Bound.exchanged, Bound.text, String.toList_ofList,
        atWordChar_append hexchanged.run hexchanged.ne_nil]
      exact atWordChar_exchanged_eq_false hs
    | phrase text => simp [Bound.exchanged, Bound.text, exchangedPhrase, atWordChar,
        isPlain, isSpecial]

lemma Token.Stops.exchanged {token : Token} {stage : Stage} {r : List Char} {previous : Option Char}
    (h : token.Stops stage r) (hcolon : ∀ value, token = .atom value → colonAhead
      (Query.exchanged (objectHead field) (lastOf previous token.text) r) = false) :
    (token.exchanged field previous).Stops stage
      (Query.exchanged (objectHead field) (lastOf previous token.text) r) := by
  cases token with
  | gap | opening | closing => exact h
  | sign op => exact fun hop => atWordChar_exchanged_eq_false (h hop)
  | and keyword => exact fun hk => atWordChar_exchanged_eq_false (h hk)
  | or => exact atWordChar_exchanged_eq_false h
  | head head =>
    have hrenamed := HeadRevises.renamed hfield.name (some head)
    change IsFieldName (if previous.all startsField then head.renamed field else head).name.toList
    split
    · exact hrenamed.2 (fun _ hsome => Option.some.inj hsome ▸ h) _ rfl
    · exact h
  | modifier modifier number =>
    obtain ⟨c, hc, hlast⟩ := lastOf_number h (d := modifier.mark) (by cases modifier <;> rfl)
    have hstarts : startsField c = false := by
      simp only [opensName, Bool.or_eq_false_iff] at hc
      simp [startsField, hc]
    rw [Token.text, lastOf_cons, hlast]
    have htame := tamer_exchanged (objectHead field) hstarts r
    exact optionalNumber_congr h htame.digit htame.point
  | atom value =>
    refine ⟨h.1.exchanged hfield atWordChar_exchanged_eq_false (hcolon value rfl),
      fun hcolons => ?_⟩
    cases value with
    | word text =>
      simpa [Atom.exchanged, Atom.NoSymbol] using
        (isTerm_exchanged hfield h.1.1).2 (by simpa [Atom.NoSymbol] using h.2 hcolons)
    | phrase text => trivial
    | range => trivial

/-- A query whose fields do not end in `-object` stays one when its heads are exchanged. -/
theorem Completes.exchanged {stage : Stage} {depth : Nat} {tokens : List Token}
    (h : Completes stage depth tokens)
    (hends : ∀ head, .head head ∈ tokens → endsInObject head.name = false)
    (previous : Option Char) :
    Query.exchanged (objectHead field) previous (Token.textOf tokens) =
        Token.textOf (exchangedTokens field previous tokens) ∧
      Completes stage depth (exchangedTokens field previous tokens) := by
  induction h generalizing previous with
  | nil => exact ⟨exchanged_nil _ _, .nil⟩
  | @cons stage stage' depth depth' token tokens hnext hdepth hstops rest ih =>
    obtain ⟨htext, hcompletes⟩ := ih (fun head hmem => hends head (List.mem_cons_of_mem token hmem))
      (lastOf previous token.text)
    have hstage : ∀ value, token = .atom value → stage' = .done := by
      rintro value rfl
      exact (Option.some.inj hnext).symm
    rw [Token.textOf_cons, hstops.exchanged_text
      (fun value hvalue => rest.dropWhile_isBlank (by simp [hstage value hvalue]))
      (fun head hhead => hends head (by rw [hhead]; exact List.mem_cons_self)), htext]
    have hsame : (token.exchanged field previous).next? stage = token.next? stage ∧
        (token.exchanged field previous).opened = token.opened ∧
        (token.exchanged field previous).closed = token.closed := by
      cases token <;> exact ⟨by cases stage <;> rfl, rfl, rfl⟩
    refine ⟨rfl, .cons (hsame.1.trans hnext) (by rw [hsame.2.1, hsame.2.2, hdepth]) ?_ hcompletes⟩
    rw [← htext]
    refine hstops.exchanged hfield fun value hvalue => ?_
    rw [htext]
    exact hcompletes.colonAhead (by simp [hstage value hvalue])

end Tokens

end SkyResolver.Query
