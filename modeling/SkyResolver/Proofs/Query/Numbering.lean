import SkyResolver.Proofs.Query.Coverage

/-! Queries with numbers in place of names. Tokens are passed one after another; a name that is
found makes a word of what it covers, and behind it the query goes on, with what was expected there
or as if an operand had just been read. -/
namespace SkyResolver.Query
open SkyResolver.Text

/-! ### Characters -/

lemma not_isBlank_of_isAlphanum {c : Char} (h : c.isAlphanum = true) : isBlank c = false := by
  have hcode : 65 ≤ c.toNat ∧ c.toNat ≤ 90 ∨ 97 ≤ c.toNat ∧ c.toNat ≤ 122 ∨
      48 ≤ c.toNat ∧ c.toNat ≤ 57 := by
    obtain halpha | hdigit := Bool.or_eq_true_iff.1 h
    · exact (toNat_of_isAlpha halpha).imp_right .inl
    · exact .inr (.inr (toNat_of_isDigit hdigit))
  simp only [isBlank, Bool.or_eq_false_iff, Bool.and_eq_false_iff, decide_eq_false_iff_not,
    beq_eq_false_iff_ne]
  omega

lemma not_isBlank_of_isAlpha {c : Char} (h : c.isAlpha = true) : isBlank c = false :=
  not_isBlank_of_isAlphanum (by simp [Char.isAlphanum, h])

/-! ### What comes next -/

lemma Completes.startsOperand {depth : Nat} {tokens : List Token}
    (h : Completes .operand depth tokens) : startsOperand (Token.textOf tokens) = true := by
  obtain ⟨before, p, after, rest, htext, hp, -⟩ := h.startsChain
  rw [htext, startsOperand_append before.blank]
  exact hp.front.2

lemma Completes.operand {depth : Nat} {token : Token} {tokens : List Token}
    (h : Completes .done depth (token :: tokens))
    (hnext : token.next? .operand = token.next? .done) :
    Completes .operand depth (token :: tokens) := by
  obtain ⟨stage, depth', hnext', hdepth, hstops, hrest⟩ := h.of_cons
  refine .cons (hnext.trans hnext') hdepth ?_ hrest
  cases token <;> exact hstops

lemma Completes.colonAhead {stage : Stage} {depth : Nat} {tokens : List Token}
    (h : Completes stage depth tokens) (hstage : stage ≠ .value) :
    colonAhead (Token.textOf tokens) = false := by
  obtain ⟨gap, rest, rfl, hrest, hgap⟩ := h.exists_gap
  rw [Token.textOf_append, Gap.textOf_tokens, colonAhead_append gap.blank]
  cases stage with
  | value => exact absurd rfl hstage
  | operand => exact colonAhead_of_startsOperand hrest.startsOperand
  | done =>
    cases rest with
    | nil => rfl
    | cons token rest =>
      cases token with
      | gap c => exact absurd rfl (hgap c rest)
      | sign | head | atom | opening =>
        exact colonAhead_of_startsOperand (hrest.operand rfl).startsOperand
      | closing => rfl
      | modifier m number => cases m <;> rfl
      | and keyword => cases keyword <;> rfl
      | or => rfl

/-- The rest of a query. -/
def Completable (stage : Stage) (depth : Nat) (s : List Char) : Prop :=
  ∃ tokens, Token.textOf tokens = s ∧ Completes stage depth tokens

/-- The rest of a query behind the first part of a word. -/
def Continues (colons : Bool) (depth : Nat) (s : List Char) : Prop :=
  ∃ w tokens, s = w ++ Token.textOf tokens ∧ Run colons w ∧
    atWordChar (Token.textOf tokens) = false ∧ Completes .done depth tokens

lemma Continues.append {colons : Bool} {depth : Nat} {u s : List Char} (hu : Run colons u)
    (h : Continues colons depth s) : Continues colons depth (u ++ s) := by
  obtain ⟨w, tokens, rfl, hw, hword, hrest⟩ := h
  exact ⟨u ++ w, tokens, by simp, hu.append hw, hword, hrest⟩

lemma completable_of_word {stage : Stage} {depth : Nat} {w : List Char} {tokens : List Token}
    (hterm : IsTerm stage.colons w) (hsymbol : stage.colons = false → ¬['&', '&'] <+: w)
    (hword : atWordChar (Token.textOf tokens) = false) (h : Completes .done depth tokens) :
    Completable stage depth (w ++ Token.textOf tokens) := by
  refine ⟨.atom (.word (String.ofList w)) :: tokens, by simp [Token.text, Atom.text],
    .cons rfl rfl ⟨⟨?_, hword, h.colonAhead (by simp)⟩, ?_⟩ h⟩
  · rwa [String.toList_ofList]
  · simpa [Atom.NoSymbol] using hsymbol

section Digits
variable {colons : Bool} {s : List Char} (hne : s ≠ []) (hdigits : ∀ c ∈ s, c.isDigit = true)
include hdigits

lemma run_of_digits : Run colons s :=
  Units.digits (fun c hc => by simp [isPlain_of_isDigit hc]) hdigits

include hne

/-- A word that starts with a digit is no keyword, and no symbol is at its start. -/
lemma isTerm_of_digits {w : List Char} (hw : Run colons w) :
    IsTerm colons (s ++ w) ∧ ¬['&', '&'] <+: s ++ w := by
  obtain ⟨d, s, rfl⟩ := List.exists_cons_of_ne_nil hne
  have hd := hdigits d (by simp)
  have hfirst : ∀ c, c.isDigit = false → d ≠ c := by
    rintro c hc rfl
    rw [hd] at hc
    cases hc
  refine ⟨⟨(run_of_digits hdigits).append hw, by simp, ?_, ?_⟩, ?_⟩
  · rintro c ⟨⟩
    exact ⟨hfirst _ rfl, hfirst _ rfl, hfirst _ rfl⟩
  · simp [atReserved, keyword?, afterPrefix?, (hfirst 'A' rfl).symm, (hfirst 'O' rfl).symm,
      (hfirst 'N' rfl).symm]
  · rintro ⟨t, ht⟩
    exact hfirst '&' rfl (List.cons.inj ht).1.symm

lemma Continues.completable {stage : Stage} {depth : Nat} {t : List Char}
    (h : Continues stage.colons depth t) : Completable stage depth (s ++ t) := by
  obtain ⟨w, tokens, rfl, hw, hword, hrest⟩ := h
  obtain ⟨hterm, hsymbol⟩ := isTerm_of_digits hne hdigits hw
  rw [← List.append_assoc]
  exact completable_of_word hterm (fun _ => hsymbol) hword hrest

end Digits

/-! ### Names on the rest of a query -/

/-- The text behind `before` becomes `t` when the names that are found in it are replaced. -/
def Replaced (names : List String) (put : List Char → List Char) (before s t : List Char) : Prop :=
  (namePass (longestFirst names) put).Rewrites before.getLast? s [] t

section Replacing
variable {names : List String} {put : List Char → List Char} {before s t : List Char}

lemma Replaced.kept {c : Char} (h : Replaced names put before (c :: s) t)
    (hfind : (nameFinder (longestFirst names)).find before.getLast? (c :: s) = none) :
    ∃ t', t = c :: t' ∧ Replaced names put (before ++ [c]) s t' := by
  obtain ⟨t', rfl, hrest⟩ := Pass.Rewrites.of_find_none h (by rwa [List.append_nil])
  exact ⟨t', rfl, by rwa [Replaced, List.getLast?_concat]⟩

lemma Replaced.swapped {old : List Char} (h : Replaced names put before (old ++ s) t)
    (hfind : (nameFinder (longestFirst names)).find before.getLast? (old ++ s) = some old) :
    ∃ t', t = put old ++ t' ∧ Replaced names put (before ++ old) s t' := by
  obtain ⟨-, r, hfirst, -⟩ := nameFinder_find hfind
  obtain ⟨-, t', rfl, hrest⟩ :=
    Pass.Rewrites.of_find_some h (firstName?_eq_some hfirst).2.1 (by rwa [List.append_nil])
  exact ⟨t', rfl, by rwa [Replaced, ← lastOf_getLast?]⟩

lemma Replaced.nil (h : Replaced names put before [] t) : t = [] := by
  generalize hs : [] = s at h
  cases h with
  | nil => rfl
  | keep => cases hs
  | swap hfind =>
    obtain ⟨-, r, hfirst, -⟩ := nameFinder_find hfind
    exact absurd (List.append_eq_nil_iff.1 hs.symm).1 (firstName?_eq_some hfirst).2.1

end Replacing

/-- What the replacement leaves of the rests of queries that are shorter than `n`. -/
structure Survives (names : List String) (put : List Char → List Char) (n : Nat) : Prop where
  /-- The rest of a query is still one. -/
  tokens : ∀ {stage depth tokens before t}, (Token.textOf tokens).length < n →
    Completes stage depth tokens → StandOn names StandsWell before (Token.groundOf tokens) →
    Replaced names put before (Token.textOf tokens) t → Completable stage depth t
  /-- A word with what follows is still one. -/
  word : ∀ {colons depth w tokens before t}, (w ++ Token.textOf tokens).length < n →
    Run colons w → atWordChar (Token.textOf tokens) = false → Completes .done depth tokens →
    StandOn names StandsWell before (painted .word w ++ Token.groundOf tokens) →
    Replaced names put before (w ++ Token.textOf tokens) t → Continues colons depth t
  /-- A name that is found where a token starts becomes a word, or the end of one. -/
  name : ∀ {stage depth tokens before t old colons}, (Token.textOf tokens).length < n →
    Completes stage depth tokens → StandOn names StandsWell before (Token.groundOf tokens) →
    (∀ x ∈ (Token.groundOf tokens).head?, x.2.starts = true) →
    (nameFinder (longestFirst names)).find before.getLast? (Token.textOf tokens) = some old →
    Replaced names put before (Token.textOf tokens) t → ∃ t', t = put old ++ t' ∧
      Continues colons depth t'

section Surviving
variable {names : List String} {put : List Char → List Char}
  (hput : ∀ name, put name ≠ [] ∧ ∀ c ∈ put name, c.isDigit = true)
  {stage : Stage} {depth : Nat} {tokens : List Token} {before t : List Char}

include hput in
lemma Replaced.atWordChar {s : List Char} (h : Replaced names put before s t)
    (hfind : (nameFinder (longestFirst names)).find before.getLast? s = none) :
    atWordChar t = atWordChar s := by
  cases s with
  | nil => rw [h.nil]
  | cons c s =>
    obtain ⟨t', rfl, hrest⟩ := h.kept hfind
    by_cases hc : c = '\\'
    · subst hc
      rw [Replaced, List.getLast?_concat] at hrest
      rcases hrest.front (namePass_gentle _ hput) rfl with ⟨rfl, rfl⟩ | ⟨_, _, _, rfl, rfl, -⟩ <;>
        rfl
    · simp [Query.atWordChar, hc]

include hput in
/-- Behind a word, the rest of a query goes on with a name or without one. -/
lemma continues_of_stop (hstage : stage ≠ .value) (hword : atWordChar (Token.textOf tokens) = false)
    {colons : Bool} (hname : ∀ old,
      (nameFinder (longestFirst names)).find before.getLast? (Token.textOf tokens) = some old →
      ∃ t', t = put old ++ t' ∧ Continues colons depth t')
    (htokens : (nameFinder (longestFirst names)).find before.getLast? (Token.textOf tokens) = none →
      Completable stage depth t)
    (h : Replaced names put before (Token.textOf tokens) t) : Continues colons depth t := by
  cases hfind : (nameFinder (longestFirst names)).find before.getLast? (Token.textOf tokens) with
  | some old =>
    obtain ⟨t', rfl, hrest⟩ := hname old hfind
    exact hrest.append (run_of_digits (hput old).2)
  | none =>
    obtain ⟨tokens', rfl, hcompletes⟩ := htokens hfind
    refine ⟨[], tokens', rfl, .nil, by rw [h.atWordChar hput hfind, hword], ?_⟩
    cases stage with
    | value => exact absurd rfl hstage
    | operand => exact hcompletes.done
    | done => exact hcompletes

lemma not_closesName_of_isNameStart {c : Char} (h : isNameStart c = true) :
    closesName c = false := by
  have hplain := isPlain_of_isNameStart h
  have hblank : isBlank c = false := by
    simp only [isNameStart, Bool.or_eq_true, beq_iff_eq] at h
    obtain (rfl | rfl) | h := h
    · rfl
    · rfl
    · exact not_isBlank_of_isAlpha h
  have hne : ∀ d : Char, isPlain d = false → c ≠ d := by
    rintro d hd rfl
    rw [hplain] at hd
    cases hd
  simp [closesName, hblank, hne ')' rfl, hne '"' rfl, hne '^' rfl, hne '~' rfl]

/-- No word goes on where a token that is no word starts and a name may end. -/
lemma Completes.atWordChar_of_closes (h : Completes stage depth tokens)
    (hstarts : ∀ x ∈ (Token.groundOf tokens).head?, x.2.starts = true)
    (hcloses : (Token.textOf tokens).head?.all closesName = true) :
    atWordChar (Token.textOf tokens) = false := by
  cases h with
  | nil => rfl
  | @cons _ _ _ _ token tokens hnext hdepth hstops rest =>
    cases token with
    | gap c => exact atWordChar_of_gap (g := [c]) (List.forall_mem_singleton.2 hstops) (by simp)
    | sign op => cases op <;> cases hcloses
    | head head =>
      obtain ⟨c, s, hname, hc, -⟩ := hstops
      simp [Token.text, FieldHead.text, hname, not_closesName_of_isNameStart hc] at hcloses
    | opening => cases hcloses
    | atom value =>
      cases value with
      | word text =>
        obtain ⟨c, s, htext⟩ := List.exists_cons_of_ne_nil hstops.1.1.ne_nil
        have := hstarts (c, .word) (by simp [Token.ground, Atom.ground, htext])
        cases this
      | phrase text =>
        obtain ⟨s, hs⟩ := IsPhrase.exists_cons hstops.1
        rw [Token.textOf_cons, Token.text, Atom.text, hs]
        rfl
      | range includeLow => cases includeLow <;> cases hcloses
    | closing => rfl
    | modifier m => cases m <;> rfl
    | and keyword => cases keyword <;> cases hcloses
    | or => cases hcloses

lemma Token.Stops.text_ne_nil {token : Token} {r : List Char} (h : token.Stops stage r) :
    token.text ≠ [] := by
  cases token with
  | gap | opening | closing | modifier | or => exact List.cons_ne_nil _ _
  | sign op => cases op <;> exact List.cons_ne_nil _ _
  | and keyword => cases keyword <;> exact List.cons_ne_nil _ _
  | head head =>
    obtain ⟨c, s, hname, -⟩ := h
    simp [Token.text, FieldHead.text]
  | atom value =>
    cases value with
    | word text => exact h.1.1.ne_nil
    | phrase text =>
      obtain ⟨s, hs⟩ := IsPhrase.exists_cons h.1
      rw [Token.text, Atom.text, hs]
      exact List.cons_ne_nil _ _
    | range includeLow => cases includeLow <;> exact List.cons_ne_nil _ _

lemma Token.Stops.starts_groundOf {token : Token} {r : List Char} (h : token.Stops stage r)
    (hword : ∀ text, token ≠ .atom (.word text)) (tokens : List Token) :
    ∀ x ∈ (Token.groundOf (token :: tokens)).head?, x.2.starts = true := by
  obtain ⟨x, ground, hground⟩ := List.exists_cons_of_ne_nil (l := token.ground) fun hnil => by
    have := h.text_ground
    rw [hnil] at this
    exact h.text_ne_nil this.symm
  have hstarts := Token.starts_ground hword
  rw [hground] at hstarts
  rw [Token.groundOf_cons, hground]
  exact hstarts

/-- Where no word goes on, no word starts. -/
lemma Completes.not_word {token : Token} (h : Completes stage depth (token :: tokens))
    (hword : atWordChar (Token.textOf (token :: tokens)) = false) :
    ∀ text, token ≠ .atom (.word text) := by
  rintro text rfl
  obtain ⟨_, _, -, -, ⟨⟨hterm, -⟩, -⟩, -⟩ := h.of_cons
  rw [Token.textOf_cons, Token.text, Atom.text,
    atWordChar_of_run hterm.run hterm.ne_nil fun hc => (hterm.start _ hc).2.2 rfl] at hword
  cases hword

lemma Completes.starts (h : Completes stage depth tokens)
    (hword : atWordChar (Token.textOf tokens) = false) :
    ∀ x ∈ (Token.groundOf tokens).head?, x.2.starts = true := by
  cases tokens with
  | nil => exact fun _ hx => by cases hx
  | cons token tokens =>
    obtain ⟨_, _, -, -, hstops, -⟩ := h.of_cons
    exact hstops.starts_groundOf (h.not_word hword) tokens

section Solid
include hput

lemma Replaced.behind {s s' u : List Char} (h : Replaced names put before (s ++ s') t)
    (hs : (namePass (longestFirst names) put).Rewrites before.getLast? s s' u) :
    ∃ t', t = u ++ t' ∧ Replaced names put (before ++ s) s' t' := by
  obtain ⟨t', rfl, hrest⟩ := Pass.Rewrites.split (namePass_gentle _ hput)
    (by rwa [List.append_nil]) h
  exact ⟨t', rfl, by rwa [Replaced, ← lastOf_getLast?]⟩

lemma rewrites_led {first rest : Role} (hrest : rest = .inner ∨ rest = .head) {s : List Char}
    {ground : Ground} (h : StandOn names StandsWell before (led first rest s ++ ground))
    (hfind : (nameFinder (longestFirst names)).find before.getLast? (s ++ ground.text) = none) :
    (namePass (longestFirst names) put).Rewrites before.getLast? s ground.text s := by
  cases s with
  | nil => exact .nil _ _
  | cons c s =>
    have hbehind : StandOn names StandsWell (before ++ [c]) (painted rest s ++ ground) :=
      h.behind [(c, first)]
    refine .keep hfind ?_
    have := Finder.Confined.closed (namePass_gentle _ hput) (hbehind.confined_closed hrest)
    rwa [List.getLast?_concat] at this

/-- What a token that is no atom stops in front of may be replaced. -/
lemma Token.Stops.replaced {token : Token} {r : List Char} (h : token.Stops stage r)
    (hatom : ∀ value, token ≠ .atom value)
    (hreplaced : Replaced names put (before ++ token.text) r t) : token.Stops stage t := by
  have hpass := namePass_gentle (longestFirst names) hput
  have hkeyword : ∀ {s : List Char} {d : Char}, token.text = s ++ [d] → opensName d = false →
      Query.atWordChar r = false → Query.atWordChar t = false := by
    intro s d htext hd hr
    rw [htext, ← List.append_assoc, Replaced, List.getLast?_concat] at hreplaced
    rwa [hreplaced.atWordChar hpass hd]
  cases token with
  | gap | head | opening | closing => exact h
  | atom value => exact absurd rfl (hatom value)
  | sign op => exact fun hop => hkeyword (s := ['N', 'O']) (by rw [hop]; rfl) rfl (h hop)
  | and keyword => exact fun hk => hkeyword (s := ['A', 'N']) (by rw [hk]; rfl) rfl (h hk)
  | or => exact hkeyword (s := ['O']) rfl rfl h
  | modifier modifier number =>
    obtain ⟨c, hc, hlast⟩ := lastOf_number h (d := modifier.mark) (by cases modifier <;> rfl)
    rw [Replaced, ← lastOf_getLast?, Token.text, lastOf_cons, hlast] at hreplaced
    by_cases hr : r = []
    · subst hr
      rcases hreplaced.front hpass hc with ⟨-, rfl⟩ | ⟨_, _, _, hr, -, -⟩
      · exact h
      · cases hr
    · have htame : Tamer (r ++ []) (t ++ []) := hreplaced.tamer hpass hc hr [] rfl
      rw [List.append_nil, List.append_nil] at htame
      exact optionalNumber_congr h htame.digit htame.point

/-- Where no name is found at its start, a token that is no word stays the same kind of token. -/
lemma exists_solid_token {token : Token} (hstops : token.Stops stage (Token.textOf tokens))
    (hword : ∀ text, token ≠ .atom (.word text)) {stage' : Stage} {depth' : Nat}
    (hrest : Completes stage' depth' tokens)
    (hstand : StandOn names StandsWell before (Token.groundOf (token :: tokens)))
    (hfind : (nameFinder (longestFirst names)).find before.getLast?
      (Token.textOf (token :: tokens)) = none) :
    ∃ token' : Token, (namePass (longestFirst names) put).Rewrites before.getLast? token.text
        (Token.textOf tokens) token'.text ∧ token'.next? = token.next? ∧
      token'.opened = token.opened ∧ token'.closed = token.closed ∧
      ∀ t, Replaced names put (before ++ token.text) (Token.textOf tokens) t →
        token'.Stops stage t := by
  have hpass := namePass_gentle (longestFirst names) hput
  by_cases hatom : ∀ value, token ≠ .atom value
  · refine ⟨token, ?_, rfl, rfl, rfl, fun t => hstops.replaced hput hatom⟩
    have hled : ∀ (first : Role) {rest : Role}, rest = .inner ∨ rest = .head →
        token.ground = led first rest token.text → (namePass (longestFirst names) put).Rewrites
          before.getLast? token.text (Token.textOf tokens) token.text := by
      intro first rest hrole hground
      rw [Token.groundOf_cons, hground] at hstand
      have := rewrites_led hput hrole hstand (by rwa [hrest.text_ground])
      rwa [hrest.text_ground] at this
    cases token with
    | gap | sign | modifier | and | or => exact hled .start (.inl rfl) rfl
    | opening => exact hled .opening (.inl rfl) rfl
    | closing => exact hled .closing (.inl rfl) rfl
    | head => exact hled .field (.inr rfl) rfl
    | atom value => exact absurd rfl (hatom value)
  · push Not at hatom
    obtain ⟨value, rfl⟩ := hatom
    rw [Token.groundOf_cons] at hstand
    have hconfined := hstand.confined_atom hstops.1 (fun text hvalue => hword text (hvalue ▸ rfl))
      (by rwa [hrest.text_ground])
    rw [hrest.text_ground] at hconfined
    cases value with
    | word text => exact absurd rfl (hword text)
    | phrase text =>
      obtain ⟨u, hu, hphrase⟩ := IsPhrase.exists_rewritten hpass hstops.1 hconfined
      refine ⟨.atom (.phrase (String.ofList u)), by simpa [Token.text, Atom.text] using hu, rfl,
        rfl, rfl, fun _ _ => ⟨?_, fun _ => trivial⟩⟩
      rw [Atom.Valid, String.toList_ofList]
      exact hphrase.isPhrase hpass hstops.1
    | range includeLow includeHigh g₁ low g₂ g₃ high g₄ =>
      obtain ⟨_, hrewrites, low', high', rfl, hlow, hhigh⟩ :=
        Atom.exists_rewritten hpass hstops.1 hconfined
      exact ⟨.atom (.range includeLow includeHigh g₁ low' g₂ g₃ high' g₄), hrewrites, rfl, rfl, rfl,
        fun _ _ => ⟨hstops.1.of_bounds (hlow.revises hpass) (hhigh.revises hpass),
          fun _ => trivial⟩⟩

end Solid

/-- A name that starts in a word and covers whole tokens takes the rest of the word and the tokens.
-/
lemma Spans.exists_rest {name after ground : Ground} {w : List Char} (h : Spans name after)
    (hground : painted .word w ++ ground = name ++ after) :
    ∃ name', name = painted .word w ++ name' ∧ ground = name' ++ after := by
  rcases List.append_eq_append_iff.1 hground with ⟨name', rfl, hname'⟩ | ⟨more, hmore, rfl⟩
  · exact ⟨name', rfl, hname'⟩
  · cases more with
    | nil => exact ⟨[], by simpa using hmore.symm, rfl⟩
    | cons y more =>
      have hy := h.stops y rfl
      rw [role_of_mem_painted (hmore ▸ List.mem_append_right name List.mem_cons_self)] at hy
      cases hy

/-- The symbol for `AND` at the start of a word is in the word. -/
lemma starts_symbol {w r u : List Char} (hr : atWordChar r = false) (h : w ++ r = '&' :: '&' :: u)
    (hne : w ≠ []) : ['&', '&'] <+: w := by
  match w with
  | [] => exact absurd rfl hne
  | [c] =>
    obtain ⟨-, rfl⟩ := List.cons.inj h
    cases hr
  | c :: d :: w =>
    simp only [List.cons_append, List.cons.injEq] at h
    obtain ⟨rfl, rfl, -⟩ := h
    exact ⟨w, rfl⟩

section Step
variable {n : Nat} (hsurvives : Survives names put n)
include hput hsurvives

/-- Behind a name that covers whole tokens, the rest of the query goes on. -/
lemma Survives.land {name after : Ground} {colons : Bool} (h : Completes stage depth tokens)
    (hstage : stage = .value → name ≠ []) (hground : Token.groundOf tokens = name ++ after)
    (hends : ∀ x ∈ name.getLast?, x.2 ≠ .head) (hstops : ∀ x ∈ after.head?, x.2.starts = true)
    (hbalanced : name.countP (·.2 = .opening) = name.countP (·.2 = .closing))
    (hcloses : after.text.head?.all closesName = true) (hlength : after.length < n)
    (hstand : StandOn names StandsWell before after)
    (hreplaced : Replaced names put before after.text t) : Continues colons depth t := by
  obtain ⟨stage', depth', rest, hstage', rfl, hrest, hcount⟩ := h.skip hground hstage hends hstops
  obtain rfl : depth = depth' := by omega
  rw [hrest.text_ground] at hcloses hreplaced
  have hshort : (Token.textOf rest).length < n := by
    rwa [← hrest.text_ground, Ground.text, List.length_map]
  exact continues_of_stop hput hstage' (hrest.atWordChar_of_closes hstops hcloses)
    (fun old hfind => hsurvives.name hshort hrest hstand hstops hfind hreplaced)
    (fun _ => hsurvives.tokens hshort hrest hstand hreplaced) hreplaced

lemma Survives.name_le {old : List Char} (colons : Bool)
    (hlength : (Token.textOf tokens).length ≤ n) (h : Completes stage depth tokens)
    (hstand : StandOn names StandsWell before (Token.groundOf tokens))
    (hstarts : ∀ x ∈ (Token.groundOf tokens).head?, x.2.starts = true)
    (hfind : (nameFinder (longestFirst names)).find before.getLast? (Token.textOf tokens) =
      some old)
    (hreplaced : Replaced names put before (Token.textOf tokens) t) :
    ∃ t', t = put old ++ t' ∧ Continues colons depth t' := by
  rw [← h.text_ground] at hfind
  obtain ⟨name, after, hground, rfl, hstands, hwell⟩ := hstand.found hfind
  have hne : name ≠ [] := by
    rintro rfl
    exact hstands.nonempty rfl
  have hspans : Spans name after := by
    obtain ⟨x, name, rfl⟩ := List.exists_cons_of_ne_nil hne
    have hx := hstarts x (by rw [hground]; rfl)
    rcases hwell.place with hall | hall | hall | hspans
    iterate 3
      rw [hall x List.mem_cons_self] at hx
      cases hx
    exact hspans
  rw [← h.text_ground] at hreplaced
  rw [hground, Ground.text_append] at hfind hreplaced
  obtain ⟨t', rfl, hrest⟩ := hreplaced.swapped hfind
  refine ⟨t', rfl, hsurvives.land hput h (fun _ => hne) hground hspans.ends hspans.stops
    hspans.balanced hstands.closed ?_ ((hground ▸ hstand).behind name) hrest⟩
  rw [← h.text_ground, hground, Ground.text, List.length_map, List.length_append] at hlength
  have := List.length_pos_of_ne_nil hne
  omega

/-- The rest of a query whose first token is no word is still one. -/
lemma Survives.tokens_le {token : Token} (hlength : (Token.textOf (token :: tokens)).length ≤ n)
    (h : Completes stage depth (token :: tokens))
    (hstand : StandOn names StandsWell before (Token.groundOf (token :: tokens)))
    (hword : ∀ text, token ≠ .atom (.word text))
    (hreplaced : Replaced names put before (Token.textOf (token :: tokens)) t) :
    Completable stage depth t := by
  obtain ⟨stage', depth', hnext, hdepth, hstops, hrest⟩ := h.of_cons
  cases hfind : (nameFinder (longestFirst names)).find before.getLast?
      (Token.textOf (token :: tokens)) with
  | some old =>
    obtain ⟨t', rfl, hcontinues⟩ := hsurvives.name_le hput stage.colons hlength h hstand
      (hstops.starts_groundOf hword tokens) hfind hreplaced
    exact Continues.completable (hput old).1 (hput old).2 hcontinues
  | none =>
    obtain ⟨token', hsolid, hnext', hopened, hclosed, hstops'⟩ :=
      exists_solid_token hput hstops hword hrest hstand hfind
    obtain ⟨t', rfl, hreplaced'⟩ := hreplaced.behind hput hsolid
    have hshort : (Token.textOf tokens).length < n := by
      have := List.length_pos_of_ne_nil hstops.text_ne_nil
      rw [Token.textOf_cons, List.length_append] at hlength
      omega
    rw [Token.groundOf_cons] at hstand
    have hrest' := hstand.behind _
    rw [hstops.text_ground] at hrest'
    obtain ⟨tokens', rfl, hcompletes⟩ := hsurvives.tokens hshort hrest hrest' hreplaced'
    exact ⟨token' :: tokens', rfl, .cons (hnext' ▸ hnext) (by rw [hopened, hclosed, hdepth])
      (hstops' _ hreplaced') hcompletes⟩

/-- Behind a name that is found in a word, the word goes on, or the tokens do where it is over. -/
lemma Survives.word_name_le {w old : List Char} {colons : Bool} (hne : w ≠ [])
    (hlength : (w ++ Token.textOf tokens).length ≤ n) (hw : Run colons w)
    (hword : atWordChar (Token.textOf tokens) = false) (h : Completes .done depth tokens)
    (hstand : StandOn names StandsWell before (painted .word w ++ Token.groundOf tokens))
    (hfind : (nameFinder (longestFirst names)).find before.getLast? (w ++ Token.textOf tokens) =
      some old)
    (hreplaced : Replaced names put before (w ++ Token.textOf tokens) t) :
    ∃ t', t = put old ++ t' ∧ Continues colons depth t' := by
  have htext : (painted .word w ++ Token.groundOf tokens : Ground).text =
      w ++ Token.textOf tokens := by
    rw [Ground.text_append, text_painted, h.text_ground]
  rw [← htext] at hlength hfind hreplaced
  obtain ⟨name, after, hground, rfl, hstands, hwell⟩ := hstand.found hfind
  obtain ⟨x, hx⟩ : ∃ x, x ∈ name.head? := by
    cases name with
    | nil => exact absurd rfl hstands.nonempty
    | cons x name => exact ⟨x, rfl⟩
  have hpositive : 0 < name.length := List.length_pos_of_mem (List.mem_of_mem_head? hx)
  have hrole : x.2 = .word := by
    refine head?_painted hne x (?_ : _ ∈ (painted .word _ ++ Token.groundOf tokens).head?)
    rw [hground, List.head?_append, hx]
    rfl
  have hbehind := (hground ▸ hstand).behind name
  rw [hground, Ground.text_append] at hfind hreplaced
  rw [hground, Ground.text, List.length_map, List.length_append] at hlength
  obtain ⟨t', rfl, hrest⟩ := hreplaced.swapped hfind
  refine ⟨t', rfl, ?_⟩
  rcases hwell.place with hall | hall | hall | hspans
  · obtain ⟨w', rfl, rfl⟩ := exists_rest_of_role hground.symm hall fun y hy hrole => by
      have := h.starts hword y hy
      rw [hrole] at this
      cases this
    obtain ⟨-, hw'⟩ := hw.split (by cases colons <;> rfl) hwell.escapes
    rw [Ground.text_append, text_painted, h.text_ground] at hrest
    have hshort : (w' ++ Token.textOf tokens).length < n := by
      rw [← h.text_ground, Ground.text, List.length_append, List.length_map]
      rw [painted, List.length_append, List.length_map] at hlength
      omega
    exact hsurvives.word hshort hw' hword h hbehind hrest
  · cases hrole.symm.trans (hall x (List.mem_of_mem_head? hx))
  · cases hrole.symm.trans (hall x (List.mem_of_mem_head? hx))
  · obtain ⟨name', rfl, hname'⟩ := hspans.exists_rest hground
    have hbalanced := hspans.balanced
    rw [List.countP_append, List.countP_append, (quiet_painted rfl w).countP.1,
      (quiet_painted rfl w).countP.2, Nat.zero_add, Nat.zero_add] at hbalanced
    refine hsurvives.land hput h (by simp) hname' (fun y hy => hspans.ends y ?_) hspans.stops
      hbalanced hstands.closed (by omega) hbehind hrest
    rw [List.getLast?_append, Option.mem_def.1 hy]
    rfl

/-- A word goes on behind each of its units, and behind each name that is found in it. -/
lemma Survives.word_le {w : List Char} {colons : Bool}
    (hlength : (w ++ Token.textOf tokens).length ≤ n) (hw : Run colons w)
    (hword : atWordChar (Token.textOf tokens) = false) (h : Completes .done depth tokens)
    (hstand : StandOn names StandsWell before (painted .word w ++ Token.groundOf tokens))
    (hreplaced : Replaced names put before (w ++ Token.textOf tokens) t) :
    Continues colons depth t := by
  by_cases hempty : w = []
  · subst hempty
    refine continues_of_stop hput (show Stage.done ≠ .value by simp) hword (fun old hfind => ?_)
      (fun _ => ?_) hreplaced
    · exact hsurvives.name_le hput colons hlength h hstand (h.starts hword) hfind hreplaced
    · cases tokens with
      | nil => exact ⟨[], hreplaced.nil.symm, h⟩
      | cons token tokens =>
        exact hsurvives.tokens_le hput hlength h hstand (h.not_word hword) hreplaced
  cases hfind :
    (nameFinder (longestFirst names)).find before.getLast? (w ++ Token.textOf tokens) with
  | some old =>
    obtain ⟨t', rfl, hrest⟩ :=
      hsurvives.word_name_le hput hempty hlength hw hword h hstand hfind hreplaced
    exact hrest.append (run_of_digits (hput old).2)
  | none =>
    cases hw with
    | nil => exact absurd rfl hempty
    | @plain c w hc tail =>
      obtain ⟨t', rfl, hrest⟩ := hreplaced.kept hfind
      have := hsurvives.word (Nat.lt_of_succ_le hlength) tail hword h
        (hstand.behind [(c, .word)]) hrest
      exact this.append (.plain hc .nil)
    | @escaped c w tail =>
      obtain ⟨t', rfl, hescaped⟩ := hreplaced.kept hfind
      -- Nothing is found behind a backslash.
      obtain ⟨t', rfl, hrest⟩ := hescaped.kept (by rw [List.getLast?_concat]; rfl)
      rw [List.append_assoc] at hrest
      have := hsurvives.word (by simp at hlength ⊢; omega) tail hword h
        (hstand.behind [('\\', .word), (c, .word)]) hrest
      exact this.append (.escaped c .nil)

/-- A word is no keyword and no symbol behind the replacement if it was none before. -/
lemma Survives.word_token_le {text : String}
    (hlength : (Token.textOf (.atom (.word text) :: tokens)).length ≤ n)
    (h : Completes stage depth (.atom (.word text) :: tokens))
    (hstand : StandOn names StandsWell before (Token.groundOf (.atom (.word text) :: tokens)))
    (hreplaced : Replaced names put before (Token.textOf (.atom (.word text) :: tokens)) t) :
    Completable stage depth t := by
  have hpass := namePass_gentle (longestFirst names) hput
  obtain ⟨stage', depth', hnext, hdepth, ⟨⟨hterm, hword, -⟩, hsymbol⟩, hrest⟩ := h.of_cons
  obtain rfl : Stage.done = stage' := Option.some.inj hnext
  obtain rfl : depth = depth' := hdepth
  obtain ⟨w, tokens', rfl, hw, hword', hrest'⟩ :=
    hsurvives.word_le hput hlength hterm.run hword hrest hstand hreplaced
  have hstart : atWordChar (text.toList ++ Token.textOf tokens) = true :=
    atWordChar_of_run hterm.run hterm.ne_nil fun hc => (hterm.start _ hc).2.2 rfl
  have hne : w ≠ [] := by
    rintro rfl
    have := hreplaced.atWordChar_eq_true hpass hstart
    rw [List.nil_append, hword'] at this
    cases this
  refine completable_of_word ⟨hw, hne, fun c hc => ?_, ?_⟩ (fun hcolons => ?_) hword' hrest'
  · have hhead := hreplaced.head? hpass
    rw [List.head?_append_of_ne_nil _ hne, Option.mem_def.1 hc] at hhead
    rcases hhead with hhead | ⟨d, hhead, hd⟩
    · refine hterm.start c ?_
      rw [Token.textOf_cons, Token.text, Atom.text,
        List.head?_append_of_ne_nil _ hterm.ne_nil] at hhead
      exact hhead.symm
    · obtain rfl := Option.some.inj hhead
      exact ⟨(ne_of_isDigit hd).1, (ne_of_isDigit hd).2.1, (ne_of_isDigit hd).2.2.1⟩
  · rw [← atReserved_append hw hword']
    exact hreplaced.atReserved hpass ((atReserved_append hterm.run hword).trans hterm.free)
  · rintro ⟨v, rfl⟩
    refine hsymbol hcolons ?_
    obtain ⟨u, hu, hfirst⟩ := Pass.Rewrites.kept hpass hreplaced rfl
    obtain ⟨u', rfl, -⟩ := hfirst.kept hpass rfl
    exact starts_symbol hword hu hterm.ne_nil

/-- The rest of a query is still one, one step further. -/
lemma Survives.succ : Survives names put (n + 1) where
  tokens {_ _ tokens _ _} hlength h hstand hreplaced := by
    have hlength := Nat.le_of_lt_succ hlength
    cases tokens with
    | nil => exact ⟨[], hreplaced.nil.symm, h⟩
    | cons token tokens =>
      by_cases hword : ∀ text, token ≠ .atom (.word text)
      · exact hsurvives.tokens_le hput hlength h hstand hword hreplaced
      · push Not at hword
        obtain ⟨text, rfl⟩ := hword
        exact hsurvives.word_token_le hput hlength h hstand hreplaced
  word hlength := hsurvives.word_le hput (Nat.le_of_lt_succ hlength)
  name hlength := hsurvives.name_le hput _ (Nat.le_of_lt_succ hlength)

end Step

include hput in
lemma survives (n : Nat) : Survives names put n := by
  induction n with
  | zero =>
    exact ⟨fun h => absurd h (Nat.not_lt_zero _), fun h => absurd h (Nat.not_lt_zero _),
      fun h => absurd h (Nat.not_lt_zero _)⟩
  | succ n ih => exact ih.succ hput

/-- The pass over a text in which all names stand well does not stop. -/
lemma StandOn.exists_replaced {ground : Ground} (h : StandOn names StandsWell before ground) :
    ∃ t, Replaced names put before ground.text t := by
  induction hn : ground.length using Nat.strong_induction_on generalizing before ground with
  | h n ih =>
    cases hfind : (nameFinder (longestFirst names)).find before.getLast? ground.text with
    | some old =>
      obtain ⟨name, after, rfl, rfl, hstands, hwell⟩ := h.found hfind
      have hshort : after.length < n := by
        have : 0 < name.length :=
          List.length_pos_of_ne_nil fun hnil => hstands.nonempty (by rw [hnil]; rfl)
        rw [← hn, List.length_append]
        omega
      obtain ⟨t, ht⟩ := ih after.length hshort (h.behind name) rfl
      rw [Ground.text_append] at hfind ⊢
      rw [Replaced, ← lastOf_getLast?] at ht
      exact ⟨_, .swap (by rwa [List.append_nil]) hwell.escapes ht⟩
    | none =>
      cases ground with
      | nil => exact ⟨[], Pass.Rewrites.nil _ _⟩
      | cons x ground =>
        obtain ⟨t, ht⟩ := ih ground.length (by simp [← hn]) (h.behind [x]) rfl
        rw [Replaced, Ground.text_cons, Ground.text_nil, List.getLast?_concat] at ht
        exact ⟨_, .keep (by rwa [List.append_nil]) ht⟩

include hput in
/-- A query in which all names stand well is a query with numbers in place of the names. -/
theorem Completes.exists_tree_replaced (h : Completes .operand 0 tokens)
    (hstand : StandOn names StandsWell [] (Token.groundOf tokens)) :
    ∃ tree, Tree.ofChars? (replaceNamesFrom (longestFirst names) put none (Token.textOf tokens)) =
      some tree := by
  obtain ⟨t, ht⟩ : ∃ t, Replaced names put [] (Ground.text (Token.groundOf tokens)) t :=
    hstand.exists_replaced
  rw [h.text_ground] at ht
  obtain ⟨tokens', rfl, hcompletes⟩ := (survives hput _).tokens (Nat.lt_succ_self _) h hstand ht
  have := replaceNamesFrom_eq ht
  rw [List.getLast?_nil] at this
  rw [this]
  exact hcompletes.exists_tree

end Surviving

end SkyResolver.Query
