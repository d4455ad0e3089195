import SkyResolver.Proofs.Query.Revision

/-! Queries as tokens. Parentheses are kept apart here from what stands in them, so a query is a
list of tokens, and to read on from one of them only takes to know what is expected there and how
many parentheses are open. Every valid spelling has tokens, and tokens that complete a query have a
valid spelling. -/
namespace SkyResolver.Query
open SkyResolver.Text

inductive Token where
  /-- One blank. The blanks around the colon of a field belong to its head. -/
  | gap (c : Char)
  | sign (op : PrefixOp)
  | head (head : FieldHead)
  | atom (value : Atom)
  | opening
  | closing
  | modifier (modifier : Modifier) (number : Option String)
  | and (keyword : Bool)
  | or

/-- What is expected at a place of a query: an operand, the value of a field, or what may follow. -/
inductive Stage where
  | operand
  | value
  | done

/-- Colons are part of a word only where a value is expected. -/
def Stage.colons : Stage → Bool
  | .value => true
  | _ => false

namespace Token

def text : Token → List Char
  | gap c => [c]
  | sign op => signText op
  | head h => h.text
  | atom value => value.text
  | opening => ['(']
  | closing => [')']
  | modifier m number => m.mark :: optionalChars number
  | and keyword => andText keyword
  | or => ['O', 'R']

def textOf (tokens : List Token) : List Char := tokens.flatMap text

@[simp] lemma textOf_nil : textOf [] = [] := rfl

@[simp] lemma textOf_cons (token : Token) (tokens : List Token) :
    textOf (token :: tokens) = token.text ++ textOf tokens := rfl

@[simp] lemma textOf_append (tokens tokens' : List Token) :
    textOf (tokens ++ tokens') = textOf tokens ++ textOf tokens' := List.flatMap_append

/-- What is expected behind a token, if it may stand there. -/
def next? : Token → Stage → Option Stage
  | atom _, _ => some .done
  | opening, _ => some .operand
  | _, .value => none
  | gap _, stage => some stage
  | sign _, _ => some .operand
  | head _, _ => some .value
  | closing, .done => some .done
  | modifier _ _, .done => some .done
  | and _, .done => some .operand
  | or, .done => some .operand
  | _, .operand => none

/-- The parentheses that a token opens. -/
def opened : Token → Nat
  | opening => 1
  | _ => 0

/-- The parentheses that it closes. -/
def closed : Token → Nat
  | closing => 1
  | _ => 0

end Token

/-- The atom is no word that could be taken for an `AND`. -/
def Atom.NoSymbol : Atom → Prop
  | .word text => ¬['&', '&'] <+: text.toList
  | _ => True

/-- The token ends in front of `r`, and where an operand is expected it is not taken for a link. -/
def Token.Stops (stage : Stage) (r : List Char) : Token → Prop
  | gap c => isGap c = true
  | sign op => op = .not → atWordChar r = false
  | head h => IsFieldName h.name.toList
  | atom value => value.Valid stage.colons r ∧ (stage.colons = false → value.NoSymbol)
  | opening => True
  | closing => True
  | modifier _ number => optionalNumber (optionalChars number ++ r) = (number, r)
  | and keyword => keyword = true → atWordChar r = false
  | or => atWordChar r = false

/-- From the stage on, behind `depth` open parentheses, the tokens are the rest of a query. -/
inductive Completes : Stage → Nat → List Token → Prop where
  | nil : Completes .done 0 []
  | cons {stage stage' : Stage} {depth depth' : Nat} {token : Token} {tokens : List Token}
      (hnext : token.next? stage = some stage')
      (hdepth : depth + token.opened = depth' + token.closed)
      (hstops : token.Stops stage (Token.textOf tokens)) (rest : Completes stage' depth' tokens) :
      Completes stage depth (token :: tokens)

lemma Completes.of_cons {stage : Stage} {depth : Nat} {token : Token} {tokens : List Token}
    (h : Completes stage depth (token :: tokens)) : ∃ stage' depth',
      token.next? stage = some stage' ∧ depth + token.opened = depth' + token.closed ∧
        token.Stops stage (Token.textOf tokens) ∧ Completes stage' depth' tokens := by
  cases h with
  | cons hnext hdepth hstops rest => exact ⟨_, _, hnext, hdepth, hstops, rest⟩

/-! ### Tokens of spellings -/

def Gap.tokens (gap : Gap) : List Token := gap.chars.map .gap

def headTokens : Option FieldHead → List Token
  | none => []
  | some head => [.head head]

/-- What is expected behind a head, or where there is none. -/
def expectedBehind : Option FieldHead → Stage
  | none => .operand
  | some _ => .value

@[simp] lemma colons_expectedBehind (head : Option FieldHead) :
    (expectedBehind head).colons = head.isSome := by
  cases head <;> rfl

def Link.tokens : Link → List Token
  | .and before keyword after => before.tokens ++ .and keyword :: after.tokens
  | .beside gap => gap.tokens
  | .or before after => before.tokens ++ .or :: after.tokens

def Spelling.tokens : {k : Rank} → Spelling k → List Token
  | _, .atom head value => headTokens head ++ [.atom value]
  | _, .group head before inner after =>
    headTokens head ++ .opening :: (before.tokens ++ (inner.tokens ++ (after.tokens ++ [.closing])))
  | _, .modified operand gap modifier number =>
    operand.tokens ++ (gap.tokens ++ [.modifier modifier number])
  | _, .bare element => element.tokens
  | _, .prefixed op gap operand => .sign op :: (gap.tokens ++ operand.tokens)
  | _, .single operand => operand.tokens
  | _, .linked first link rest => first.tokens ++ (link.tokens ++ rest.tokens)

@[simp] lemma Gap.textOf_tokens (gap : Gap) : Token.textOf gap.tokens = gap.chars := by
  rw [Gap.tokens, Token.textOf, List.flatMap_map]
  exact List.flatMap_pure_eq_map id _ |>.trans (List.map_id _)

@[simp] lemma textOf_headTokens (head : Option FieldHead) :
    Token.textOf (headTokens head) = headText head := by
  cases head <;> simp [headTokens, headText, Token.text]

@[simp] lemma Link.textOf_tokens (link : Link) : Token.textOf link.tokens = link.text := by
  cases link <;> simp [Link.tokens, Link.text, Token.text]

@[simp] lemma Spelling.textOf_tokens {k : Rank} (p : Spelling k) :
    Token.textOf p.tokens = p.text := by
  induction p <;> simp_all [Spelling.tokens, Spelling.text, Token.text]

/-- The words that stand outside of quotes and are not the value of a field by themselves. -/
def Spelling.looseWords : {k : Rank} → Spelling k → List String
  | _, .atom none (.word text) => [text]
  | _, .atom _ _ => []
  | _, .group _ _ inner _ => inner.looseWords
  | _, .modified operand _ _ _ => operand.looseWords
  | _, .bare element => element.looseWords
  | _, .prefixed _ _ operand => operand.looseWords
  | _, .single operand => operand.looseWords
  | _, .linked first _ rest => first.looseWords ++ rest.looseWords

lemma Completes.gap {stage : Stage} {depth : Nat} {tokens : List Token} (gap : Gap)
    (hstage : stage.colons = false) (h : Completes stage depth tokens) :
    Completes stage depth (gap.tokens ++ tokens) := by
  obtain ⟨chars, hblank⟩ := gap
  induction chars with
  | nil => exact h
  | cons c chars ih =>
    refine .cons ?_ rfl (hblank c (by simp)) (ih fun d hd => hblank d (by simp [hd]))
    cases stage <;> first | rfl | cases hstage

/-- Where an operand may stand without a link in front, it is one that is expected. -/
lemma Completes.done {depth : Nat} {tokens : List Token} (h : Completes .operand depth tokens) :
    Completes .done depth tokens := by
  generalize hstage : Stage.operand = stage at h
  induction h with
  | nil => cases hstage
  | @cons stage stage' depth depth' token tokens hnext hdepth hstops rest ih =>
    subst hstage
    cases token with
    | gap c =>
      cases hnext
      exact .cons rfl hdepth hstops (ih rfl)
    | sign | head | atom | opening =>
      cases hnext
      exact .cons rfl hdepth hstops rest
    | closing | modifier | and | or => cases hnext

section Spellings
variable {k : Rank} {p : Spelling k} {depth : Nat} {tokens : List Token}

/-- The tokens of a field or of what stands there without a head. -/
lemma Completes.named {head : Option FieldHead} (hname : ∀ h ∈ head, IsFieldName h.name.toList)
    (h : Completes (expectedBehind head) depth tokens) :
    Completes .operand depth (headTokens head ++ tokens) := by
  cases head with
  | none => exact h
  | some head => exact .cons rfl rfl (hname head rfl) h

/-- A valid spelling in front of the rest of a query completes the query, if no word in it could be
taken for an `AND`. -/
theorem Spelling.Valid.completes (hp : p.Valid (Token.textOf tokens))
    (hwords : ∀ word ∈ p.looseWords, ¬['&', '&'] <+: word.toList)
    (h : Completes .done depth tokens) : Completes .operand depth (p.tokens ++ tokens) := by
  induction p generalizing depth tokens with
  | atom head value =>
    obtain ⟨hname, hvalue⟩ := hp
    rw [Spelling.tokens, List.append_assoc]
    refine .named hname (.cons rfl rfl ⟨by simpa using hvalue, fun hstage => ?_⟩ h)
    · cases head with
      | none =>
        cases value with
        | word text => exact hwords text (List.mem_singleton_self _)
        | phrase | range => trivial
      | some head => cases hstage
  | group head before inner after ih =>
    obtain ⟨hname, hinner⟩ := hp
    have hclose : Completes .done (depth + 1) (after.tokens ++ .closing :: tokens) :=
      .gap after rfl (.cons rfl rfl trivial h)
    have hopen := (ih (by simpa [Token.text] using hinner) hwords hclose).gap before rfl
    rw [Spelling.tokens, List.append_assoc]
    refine .named hname (.cons rfl rfl trivial ?_)
    simpa using hopen
  | modified operand gap modifier number ih =>
    have hrest : Completes .done depth (gap.tokens ++ .modifier modifier number :: tokens) :=
      .gap gap rfl (.cons rfl rfl hp.2 h)
    have := ih (by simpa [Token.text] using hp.1) hwords hrest
    simpa [Spelling.tokens] using this
  | bare element ih => exact ih hp hwords h
  | prefixed op gap operand ih =>
    have hoperand := (ih hp.2 hwords h).gap gap rfl
    rw [Spelling.tokens, List.cons_append, List.append_assoc]
    exact .cons rfl rfl (by simpa [Token.Stops] using hp.1) hoperand
  | single operand ih => exact ih hp hwords h
  | linked first link rest ihFirst ihRest =>
    obtain ⟨hfirst, hlink, hrest⟩ := hp
    have hafter := ihRest hrest (fun w hw => hwords w (List.mem_append_right _ hw)) h
    have hlinked : Completes .done depth (link.tokens ++ (rest.tokens ++ tokens)) := by
      cases link with
      | and before keyword after =>
        rw [Link.tokens, List.append_assoc]
        refine .gap before rfl (.cons rfl rfl ?_ (.gap after rfl hafter))
        simpa [Token.Stops, Link.Valid] using hlink
      | beside gap => exact .gap gap rfl hafter.done
      | or before after =>
        rw [Link.tokens, List.append_assoc]
        refine .gap before rfl (.cons rfl rfl ?_ (.gap after rfl hafter))
        simpa [Token.Stops, Link.Valid] using hlink
    have := ihFirst (by simpa using hfirst)
      (fun w hw => hwords w (List.mem_append_left _ hw)) hlinked
    simpa [Spelling.tokens] using this

end Spellings

/-! ### Spellings of tokens -/

lemma Completes.exists_gap {stage : Stage} {depth : Nat} {tokens : List Token}
    (h : Completes stage depth tokens) : ∃ (gap : Gap) (rest : List Token),
      tokens = gap.tokens ++ rest ∧ Completes stage depth rest ∧ ∀ c t, rest ≠ .gap c :: t := by
  induction h with
  | nil => exact ⟨.empty, [], rfl, .nil, by simp⟩
  | @cons stage stage' depth depth' token tokens hnext hdepth hstops rest ih =>
    by_cases hgap : ∃ c, token = .gap c
    · obtain ⟨c, rfl⟩ := hgap
      obtain ⟨gap, rest', rfl, hrest', hfirst⟩ := ih
      obtain ⟨rfl, rfl⟩ : stage = stage' ∧ depth = depth' := by
        refine ⟨?_, hdepth⟩
        cases stage <;> simp_all [Token.next?]
      refine ⟨⟨c :: gap.chars, ?_⟩, rest', by simp [Gap.tokens], hrest', hfirst⟩
      exact List.forall_mem_cons.2 ⟨hstops, gap.blank⟩
    · refine ⟨.empty, _, rfl, .cons hnext hdepth hstops rest, ?_⟩
      rintro c t ⟨⟩
      exact hgap ⟨c, rfl⟩

/-- Where an operand is expected, nothing is taken for an `AND`. -/
lemma Completes.takesAnd {depth : Nat} {tokens : List Token} (h : Completes .operand depth tokens) :
    takesAnd (Token.textOf tokens) = false := by
  obtain ⟨gap, rest, rfl, hrest, hfirst⟩ := h.exists_gap
  rw [Token.textOf_append, Gap.textOf_tokens, Query.takesAnd, afterAt_append gap.blank,
    ← Query.takesAnd]
  cases hrest with
  | @cons _ _ _ _ token tokens hnext _ hstops _ =>
    cases token with
    | gap c => exact absurd rfl (hfirst c tokens)
    | sign op => cases op <;> rfl
    | head head => exact head.takesAnd hstops _
    | opening => rfl
    | atom value =>
      obtain ⟨hvalue, hsymbol⟩ := hstops
      cases value with
      | word text =>
        obtain ⟨hterm, hword, -⟩ := hvalue
        refine Bool.eq_false_iff.2 fun htakes => hsymbol rfl ?_
        obtain ⟨v, hv, -⟩ := (IsTerm.takesAnd hterm hword).1 htakes
        exact ⟨v, hv.symm⟩
      | phrase text =>
        obtain ⟨t, ht⟩ := IsPhrase.exists_cons hvalue
        rw [Token.textOf_cons, Token.text, Atom.text, ht]
        rfl
      | range includeLow => cases includeLow <;> rfl
    | closing | modifier | and | or => cases hnext

/-- The rest behind a chain: nothing, or a parenthesis that closes. -/
inductive Completes.Behind : Nat → List Token → Prop where
  | nothing : Behind 0 []
  | closing {depth : Nat} {tokens : List Token} (h : Completes .done depth tokens) :
      Behind (depth + 1) (.closing :: tokens)

/-- The tokens start with a spelled chain, blanks around it. -/
def StartsChain (depth : Nat) (tokens : List Token) : Prop :=
  ∃ (before : Gap) (p : Spelling .chain) (after : Gap) (rest : List Token),
    Token.textOf tokens = before.chars ++ (p.text ++ (after.chars ++ Token.textOf rest)) ∧
      p.Valid (after.chars ++ Token.textOf rest) ∧ Completes.Behind depth rest ∧
      rest.length < tokens.length

/-- The tokens behind an operand, the blanks in front of them apart, are no modifier. -/
def Unprolonged (tokens : List Token) : Prop :=
  (∀ c t, tokens ≠ .gap c :: t) ∧ ∀ modifier number t, tokens ≠ .modifier modifier number :: t

/-- The tokens start with a spelled operand, blanks around it. -/
def StartsOperand (depth : Nat) (tokens : List Token) : Prop :=
  ∃ (before : Gap) (p : Spelling .operand) (after : Gap) (rest : List Token),
    Token.textOf tokens = before.chars ++ (p.text ++ (after.chars ++ Token.textOf rest)) ∧
      p.Valid (after.chars ++ Token.textOf rest) ∧ Completes .done depth rest ∧
      Unprolonged rest ∧ rest.length < tokens.length

/-- Behind the head, if there is one, the tokens start with the rest of a spelled element. -/
def StartsElement (head : Option FieldHead) (depth : Nat) (tokens : List Token) : Prop :=
  ∃ (e : Spelling .element) (rest : List Token),
    headText head ++ Token.textOf tokens = e.text ++ Token.textOf rest ∧
      e.Valid (Token.textOf rest) ∧ Completes .done depth rest ∧ rest.length < tokens.length

lemma exists_modified_element (e : Spelling .element) {depth : Nat} {tokens : List Token}
    (he : e.Valid (Token.textOf tokens)) (h : Completes .done depth tokens) :
    ∃ (e' : Spelling .element) (gap : Gap) (rest : List Token),
      e.text ++ Token.textOf tokens = e'.text ++ (gap.chars ++ Token.textOf rest) ∧
        e'.Valid (gap.chars ++ Token.textOf rest) ∧ Completes .done depth rest ∧ Unprolonged rest ∧
        rest.length ≤ tokens.length := by
  induction hn : tokens.length using Nat.strong_induction_on generalizing e tokens with
  | h n ih =>
    obtain ⟨gap, rest, rfl, hrest, hfirst⟩ := h.exists_gap
    by_cases hmodifier : ∃ modifier number t, rest = .modifier modifier number :: t
    · obtain ⟨modifier, number, t, rfl⟩ := hmodifier
      cases hrest with
      | cons hnext hdepth hstops hrest =>
        cases hnext
        obtain rfl := hdepth
        obtain ⟨e', gap', rest', htext, hvalid, hcompletes, hunprolonged, hlength⟩ :=
          ih t.length (by simp [← hn]; omega) (.modified e gap modifier number)
            ⟨by simpa [Token.text] using he, hstops⟩ hrest rfl
        refine ⟨e', gap', rest', ?_, hvalid, hcompletes, hunprolonged, ?_⟩
        · rw [← htext]
          simp [Spelling.text, Token.text]
        · simp only [← hn, List.length_append, List.length_cons]
          omega
    · refine ⟨e, gap, rest, by simp, by simpa using he, hrest, ⟨hfirst, ?_⟩, by simp [← hn]⟩
      rintro modifier number t rfl
      exact hmodifier ⟨modifier, number, t, rfl⟩

/-- An element with the modifiers behind it is an operand. -/
lemma StartsElement.startsOperand {head : Option FieldHead} {ts us : List Token} {depth : Nat}
    (h : StartsElement head depth us)
    (htext : Token.textOf ts = headText head ++ Token.textOf us) (hlength : us.length ≤ ts.length) :
    StartsOperand depth ts := by
  obtain ⟨e, rest, helement, he, hrest, hless⟩ := h
  obtain ⟨e', gap, rest', hmodified, he', hrest', hunprolonged, hless'⟩ :=
    exists_modified_element e he hrest
  refine ⟨.empty, .bare e', gap, rest', ?_, he', hrest', hunprolonged, by omega⟩
  rw [htext, helement, hmodified]
  rfl

lemma StartsOperand.gap {c : Char} {ts : List Token} {depth : Nat} (h : StartsOperand depth ts)
    (hc : isGap c = true) : StartsOperand depth (.gap c :: ts) := by
  obtain ⟨before, p, after, rest, htext, hp, hdone, hunprolonged, hless⟩ := h
  refine ⟨⟨c :: before.chars, List.forall_mem_cons.2 ⟨hc, before.blank⟩⟩, p, after, rest, ?_, hp,
    hdone, hunprolonged, ?_⟩
  · simp [Token.text, htext]
  · rw [List.length_cons]
    omega

lemma StartsOperand.sign {op : PrefixOp} {ts : List Token} {depth : Nat}
    (h : StartsOperand depth ts) (hop : op = .not → atWordChar (Token.textOf ts) = false) :
    StartsOperand depth (.sign op :: ts) := by
  obtain ⟨before, p, after, rest, htext, hp, hdone, hunprolonged, hless⟩ := h
  refine ⟨.empty, .prefixed op before p, after, rest, ?_, ⟨fun hnot => ?_, hp⟩, hdone,
    hunprolonged, ?_⟩
  · simp [Token.text, Spelling.text, htext, Gap.empty]
  · rw [← htext]
    exact hop hnot
  · rw [List.length_cons]
    omega

section Chains
variable {tokens : List Token} (hshorter : ∀ (ts : List Token) (depth : Nat),
  ts.length < tokens.length → Completes .operand depth ts → StartsChain depth ts)
include hshorter

/-- A group, or an atom, with the head in front of it if it has one. -/
lemma exists_headed_element (head : Option FieldHead) {ts : List Token} {depth : Nat}
    (hlength : ts.length ≤ tokens.length)
    (hname : ∀ h ∈ head, IsFieldName h.name.toList)
    (h : Completes (expectedBehind head) depth ts)
    (hfirst : (∃ value t, ts = .atom value :: t) ∨ ∃ t, ts = .opening :: t) :
    StartsElement head depth ts := by
  rcases hfirst with ⟨value, t, rfl⟩ | ⟨t, rfl⟩
  · obtain ⟨stage', depth', hnext, hdepth, hstops, hrest⟩ := h.of_cons
    cases hnext
    obtain rfl := hdepth
    exact ⟨.atom head value, t, by simp [Spelling.text, Token.text],
      ⟨hname, by simpa using hstops.1⟩, hrest, by simp⟩
  · obtain ⟨stage', depth', hnext, hdepth, hstops, hrest⟩ := h.of_cons
    cases hnext
    obtain rfl := hdepth
    obtain ⟨before, p, after, rest, htext, hvalid, hbehind, hless⟩ :=
      hshorter t _ (by rw [List.length_cons] at hlength; omega) hrest
    cases hbehind with
    | @closing _ rest hrest' =>
      refine ⟨.group head before p after, rest, ?_, ⟨hname, ?_⟩, hrest', ?_⟩
      · simp [Spelling.text, Token.text, htext]
      · simpa [Token.text] using hvalid
      · simp only [List.length_cons] at hless ⊢
        omega

lemma startsOperand_of_completes {ts : List Token} {depth : Nat}
    (hlength : ts.length ≤ tokens.length) (h : Completes .operand depth ts) :
    StartsOperand depth ts := by
  induction ts with
  | nil => cases h
  | cons token ts ih =>
    have hle : ts.length ≤ tokens.length := by
      rw [List.length_cons] at hlength
      omega
    cases h with
    | cons hnext hdepth hstops hrest =>
      cases token with
      | gap c =>
        cases hnext
        obtain rfl := hdepth
        exact (ih hle hrest).gap hstops
      | sign op =>
        cases hnext
        obtain rfl := hdepth
        exact (ih hle hrest).sign hstops
      | head head =>
        cases hnext
        obtain rfl := hdepth
        have helement : StartsElement (some head) depth ts := by
          apply exists_headed_element hshorter (some head) hle
          · exact fun h hh => Option.mem_some.1 hh ▸ hstops
          · exact hrest
          · cases hrest with
            | @cons _ _ _ _ token t hnext =>
              cases token with
              | atom value => exact .inl ⟨value, t, rfl⟩
              | opening => exact .inr ⟨t, rfl⟩
              | gap | sign | head | closing | modifier | and | or => cases hnext
        exact helement.startsOperand rfl (Nat.le_succ _)
      | atom value =>
        exact (exists_headed_element hshorter none hlength (by simp)
          (.cons hnext hdepth hstops hrest) (.inl ⟨value, ts, rfl⟩)).startsOperand rfl le_rfl
      | opening =>
        exact (exists_headed_element hshorter none hlength (by simp)
          (.cons hnext hdepth hstops hrest) (.inr ⟨ts, rfl⟩)).startsOperand rfl le_rfl
      | closing | modifier | and | or => cases hnext

end Chains

/-- An operand with a link and a chain behind it. -/
lemma StartsChain.linked {depth : Nat} {tokens rest t : List Token} {before gap after : Gap}
    {p : Spelling .operand} {q : Spelling .chain} (link : Link)
    (htext : Token.textOf tokens = before.chars ++ (p.text ++ (gap.chars ++ Token.textOf rest)))
    (hp : p.Valid (gap.chars ++ Token.textOf rest))
    (hrest : gap.chars ++ Token.textOf rest =
      link.text ++ (q.text ++ (after.chars ++ Token.textOf t)))
    (hlink : link.Valid (q.text ++ (after.chars ++ Token.textOf t)))
    (hq : q.Valid (after.chars ++ Token.textOf t)) (hbehind : Completes.Behind depth t)
    (hlength : t.length < tokens.length) : StartsChain depth tokens := by
  refine ⟨before, .linked p link q, after, t, ?_, ⟨?_, hlink, hq⟩, hbehind, hlength⟩
  · rw [htext, hrest]
    simp [Spelling.text]
  · rwa [← hrest]

theorem Completes.startsChain {depth : Nat} {tokens : List Token}
    (h : Completes .operand depth tokens) : StartsChain depth tokens := by
  induction hn : tokens.length using Nat.strong_induction_on generalizing tokens depth with
  | h n ih =>
    have hshorter : ∀ (ts : List Token) (depth : Nat), ts.length < tokens.length →
        Completes .operand depth ts → StartsChain depth ts :=
      fun ts depth hless hts => ih ts.length (hn ▸ hless) hts rfl
    obtain ⟨before, p, gap, rest, htext, hp, hdone, ⟨hgap, hmodifier⟩, hless⟩ :=
      startsOperand_of_completes hshorter le_rfl h
    -- What follows the operand and its modifiers is a link and a chain, or the chain ends there.
    cases hdone with
    | nil => exact ⟨before, .single p, gap, [], htext, hp, .nothing, hless⟩
    | @cons stage' _ _ _ token t hnext hdepth hstops hrest =>
      have hshort : t.length < tokens.length := by
        rw [List.length_cons] at hless
        omega
      cases token with
      | gap c => exact absurd rfl (hgap c t)
      | modifier modifier number => exact absurd rfl (hmodifier modifier number t)
      | closing =>
        cases hnext
        obtain rfl : depth = _ + 1 := hdepth
        exact ⟨before, .single p, gap, _, htext, hp, .closing hrest, hless⟩
      | and keyword =>
        cases hnext
        obtain rfl := hdepth
        obtain ⟨before', q, after, rest, htext', hq, hbehind, hless'⟩ := hshorter t _ hshort hrest
        rw [Token.Stops, htext'] at hstops
        exact .linked (.and gap keyword before') htext hp
          (by simp [Link.text, Token.text, htext']) hstops hq hbehind (hless'.trans hshort)
      | or =>
        cases hnext
        obtain rfl := hdepth
        obtain ⟨before', q, after, rest, htext', hq, hbehind, hless'⟩ := hshorter t _ hshort hrest
        rw [Token.Stops, htext'] at hstops
        exact .linked (.or gap before') htext hp
          (by simp [Link.text, Token.text, htext']) hstops hq hbehind (hless'.trans hshort)
      | sign | head | atom | opening =>
        cases hnext
        have hoperand : Completes .operand _ _ := .cons rfl hdepth hstops hrest
        obtain ⟨before', q, after, rest, htext', hq, hbehind, hless'⟩ :=
          hshorter _ _ hless hoperand
        refine .linked (.beside (gap.append before')) htext hp ?_ ?_ hq hbehind
          (hless'.trans hless)
        · simp [Link.text, Gap.append, htext']
        · have htakes := hoperand.takesAnd
          rwa [htext', Query.takesAnd, afterAt_append before'.blank] at htakes

/-- Tokens that complete a query are a query. -/
theorem Completes.exists_tree {tokens : List Token} (h : Completes .operand 0 tokens) :
    ∃ tree, Tree.ofChars? (Token.textOf tokens) = some tree := by
  obtain ⟨before, p, after, rest, htext, hp, hbehind, -⟩ := h.startsChain
  cases hbehind
  rw [Token.textOf_nil, List.append_nil] at htext hp
  exact ⟨_, htext ▸ Spelling.ofChars? before after hp⟩

end SkyResolver.Query
