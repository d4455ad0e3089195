import SkyResolver.Proofs.Query.Spelling

/-! What is spelled validly is read as it is spelled. The readers of elements, operands and chains
are followed along the spelling; each lemma says what stands behind the part that was read. -/
namespace SkyResolver.Query
open SkyResolver.Text

/-! ### Elements -/

lemma phrase?_eq_none {s : List Char} (h : s.head? ≠ some '"') : phrase? s = none := by
  unfold phrase?
  split
  · exact absurd rfl h
  · rfl

/-- The characters that a run starts with. -/
lemma Run.head {colons : Bool} {w s : List Char} (hw : Run colons w) (hne : w ≠ []) {c : Char}
    (hc : (w ++ s).head? = some c) : isGap c = false ∧ c ∉ ['"', '(', ')', '[', '\x7b',
      '^', '~'] := by
  cases hw with
  | nil => exact absurd rfl hne
  | escaped d _ =>
    obtain rfl : '\\' = c := by simpa using hc
    decide
  | @plain d t hd _ =>
    obtain rfl : d = c := by simpa using hc
    simp only [Bool.or_eq_true, Bool.and_eq_true, beq_iff_eq] at hd
    rcases hd with hd | ⟨-, rfl⟩
    · simp only [isPlain, isSpecial, Bool.and_eq_true, Bool.not_eq_true',
        Bool.or_eq_false_iff] at hd
      simp_all
    · decide

lemma Bound.Valid.read {bound : Bound} {r : List Char} (h : bound.Valid r) :
    boundAt (bound.text ++ r) = some (bound.tree, r) := by
  rw [boundAt_eq]
  cases bound with
  | word text =>
    obtain ⟨hbound, hr⟩ := h
    have hquote : (text.toList ++ r).head? ≠ some '"' := fun hc => by
      simpa using (hbound.run.head hbound.ne_nil hc).2
    simp [Bound.text, Bound.tree, phrase?_eq_none hquote, bound?_append hbound hr]
  | phrase text => simp [Bound.text, Bound.tree, h r]

lemma Bound.Valid.skipGap {bound : Bound} {r s : List Char} (h : bound.Valid r) :
    skipGap (bound.text ++ s) = bound.text ++ s := by
  cases bound with
  | word text => exact skipGap_run h.1.run h.1.ne_nil
  | phrase text =>
    obtain ⟨t, ht⟩ := IsPhrase.exists_cons h
    rw [Bound.text, ht]
    exact skipGap_of_head rfl

lemma interiorAt_append {low high : Bound} {includeHigh : Bool} {r : List Char} (g₁ g₂ g₃ g₄ : Gap)
    (hlow : low.Valid (g₂.chars ++ 'T' :: 'O' ::
      (g₃.chars ++ (high.text ++ (g₄.chars ++ closingBracket includeHigh :: r)))))
    (hto : atWordChar (g₃.chars ++ (high.text ++ (g₄.chars ++ closingBracket includeHigh :: r))) =
      false)
    (hhigh : high.Valid (g₄.chars ++ closingBracket includeHigh :: r)) (includeLow : Bool) :
    interiorAt includeLow (g₁.chars ++ (low.text ++ (g₂.chars ++ 'T' :: 'O' ::
      (g₃.chars ++ (high.text ++ (g₄.chars ++ closingBracket includeHigh :: r)))))) =
      some (.range low.tree high.tree includeLow includeHigh, r) := by
  have hkey := keyword?_self (k := "TO") hto
  simp only [show "TO".toList = ['T', 'O'] from rfl, List.cons_append, List.nil_append] at hkey
  rw [interiorAt, skipGap_append g₁.blank, hlow.skipGap, hlow.read]
  simp only [Option.bind_some]
  rw [skipGap_append g₂.blank, skipGap_of_head (by rfl), hkey]
  simp only [Option.bind_some]
  rw [skipGap_append g₃.blank, hhigh.skipGap, hhigh.read]
  simp only [Option.bind_some]
  rw [skipGap_append g₄.blank]
  cases includeHigh <;> rfl

lemma Atom.Valid.read {colons : Bool} {atom : Atom} {r : List Char} (h : atom.Valid colons r) :
    plainAt colons (atom.text ++ r) = some (atom.tree, r) := by
  rw [plainAt_eq]
  cases atom with
  | word text =>
    obtain ⟨hterm, hr, hcolon⟩ := h
    have hhead : ∀ c ∈ ['"', '[', '\x7b'], (text.toList ++ r).head? ≠ some c := fun c hc hs =>
      (hterm.run.head hterm.ne_nil hs).2 (by revert hc; simp; tauto)
    have hrange : rangeAt (text.toList ++ r) = none := by
      rw [rangeAt_eq]
      split
      · rename_i hs
        exact absurd (congrArg List.head? hs) (hhead '[' (by simp))
      · rename_i hs
        exact absurd (congrArg List.head? hs) (hhead '\x7b' (by simp))
      · rfl
    simp [Atom.text, Atom.tree, hrange, phrase?_eq_none (hhead '"' (by simp)),
      term?_append hterm (runsOn_of_colonAhead hr hcolon)]
  | phrase text =>
    have hphrase := h r
    obtain ⟨t, ht⟩ := IsPhrase.exists_cons h
    have hrange : rangeAt (text.toList ++ r) = none := by
      rw [rangeAt_eq, ht]
      rfl
    simp [Atom.text, Atom.tree, hrange, hphrase]
  | range includeLow includeHigh g₁ low g₂ g₃ high g₄ =>
    obtain ⟨hlow, hto, hhigh⟩ := h
    have hrange := interiorAt_append g₁ g₂ g₃ g₄ hlow hto hhigh includeLow
    rw [rangeAt_eq]
    cases includeLow <;> simp [Atom.text, Atom.tree, openingBracket, hrange]

/-- The characters that an atom starts with. -/
lemma Atom.Valid.head {colons : Bool} {atom : Atom} {r s : List Char} (h : atom.Valid colons r)
    {c : Char} (hc : (atom.text ++ s).head? = some c) : isGap c = false ∧ c ≠ '(' := by
  cases atom with
  | word text =>
    obtain ⟨hgap, hnot⟩ := h.1.run.head h.1.ne_nil hc
    exact ⟨hgap, by rintro rfl; simp at hnot⟩
  | phrase text =>
    obtain ⟨t, ht⟩ := IsPhrase.exists_cons h
    simp only [Atom.text, ht, List.cons_append, List.head?_cons, Option.some.injEq] at hc
    subst hc
    decide
  | range includeLow includeHigh g₁ low g₂ g₃ high g₄ =>
    simp only [Atom.text, List.cons_append, List.head?_cons, Option.some.injEq] at hc
    subst hc
    cases includeLow <;> decide

lemma skipGap_of_head? {s : List Char} (h : ∀ c, s.head? = some c → isGap c = false) :
    skipGap s = s := by
  cases s with
  | nil => rfl
  | cons c t => exact skipGap_of_head (h c rfl)

lemma enclosedAt_eq_none {total : Nat} {s : List Char} (h : s.head? ≠ some '(') :
    enclosedAt total s = none := by
  rw [enclosedAt_eq]
  split
  · exact absurd rfl h
  · rfl

lemma Atom.Valid.not_enclosed {colons : Bool} {atom : Atom} {r : List Char}
    (h : atom.Valid colons r) (total : Nat) : enclosedAt total (atom.text ++ r) = none :=
  enclosedAt_eq_none fun hc => (h.head hc).2 rfl

lemma headAt_eq_none {s : List Char} (h : ∀ c, s.head? = some c → isNameStart c = false) :
    headAt s = none := by
  rw [headAt_eq]
  cases s with
  | nil => rfl
  | cons c t => simp [fieldName?_cons, h c rfl]

lemma Atom.Valid.not_named {atom : Atom} {r : List Char} (h : atom.Valid false r) :
    headAt (atom.text ++ r) = none := by
  cases atom with
  | word text =>
    obtain ⟨hterm, hr, hcolon⟩ := h
    cases hhead : headAt (text.toList ++ r) with
    | none => exact hhead
    | some x =>
      have := (headAt_run_isSome hterm.run hr).1 (by rw [hhead]; rfl)
      rw [hcolon] at this
      cases this.2
  | phrase text =>
    obtain ⟨t, ht⟩ := IsPhrase.exists_cons h
    refine headAt_eq_none fun c hc => ?_
    simp only [Atom.text, ht, List.cons_append, List.head?_cons, Option.some.injEq] at hc
    subst hc
    rfl
  | range includeLow includeHigh g₁ low g₂ g₃ high g₄ =>
    refine headAt_eq_none fun c hc => ?_
    simp only [Atom.text, List.cons_append, List.head?_cons, Option.some.injEq] at hc
    subst hc
    cases includeLow <;> rfl

lemma FieldHead.read {head : FieldHead} (h : IsFieldName head.name.toList) (s : List Char) :
    headAt (head.text ++ s) = some (head.name, head.after.chars ++ s) := by
  have := headAt_append h head.before.blank (head.after.chars ++ s)
  simpa [FieldHead.text] using this

lemma modifiers_mark {modifier : Modifier} {s r : List Char} (h : skipGap s = modifier.mark :: r)
    (tree : Tree) : modifiers tree s =
      modifiers (modifier.apply tree (optionalNumber r).1) (optionalNumber r).2 := by
  conv_lhs => rw [modifiers]
  split
  · rename_i r' h'
    rw [h', List.cons.injEq] at h
    obtain ⟨hmark, rfl⟩ := h
    cases modifier
    · rfl
    · cases hmark
  · rename_i r' h'
    rw [h', List.cons.injEq] at h
    obtain ⟨hmark, rfl⟩ := h
    cases modifier
    · cases hmark
    · rfl
  · rename_i hboost happrox
    cases modifier
    · exact absurd h (hboost r)
    · exact absurd h (happrox r)

/-- A text in front of which no modifier stands. -/
def Unmodified (s : List Char) : Prop := ∀ c ∈ (skipGap s).head?, c ≠ '^' ∧ c ≠ '~'

lemma modifiers_of_unmodified {s : List Char} (h : Unmodified s) (tree : Tree) :
    modifiers tree s = (tree, s) := by
  rw [modifiers]
  split
  · rename_i r hr
    exact absurd rfl (h '^' (by simp [hr])).1
  · rename_i r hr
    exact absurd rfl (h '~' (by simp [hr])).2
  · rfl

lemma Unmodified.of_startsOperand {s : List Char} (h : startsOperand s = true) : Unmodified s := by
  intro c hc
  obtain ⟨t, ht⟩ := List.head?_eq_some_iff.1 hc
  refine ⟨?_, ?_⟩ <;>
  · rintro rfl
    have := Halts.startsOperand (s := s) (.inr ⟨_, t, ht, by simp⟩)
    rw [h] at this
    cases this

/-! ### Chains -/

/-- A text in front of which a chain is over: nothing is left, or a closing parenthesis comes next.
-/
def Ends (s : List Char) : Prop := skipGap s = [] ∨ ∃ t, skipGap s = ')' :: t

lemma Ends.halts {s : List Char} (h : Ends s) : Halts (skipGap s) := by
  rcases h with h | ⟨t, h⟩
  · exact .inl h
  · exact .inr ⟨')', t, h, by simp⟩

lemma Ends.unmodified {s : List Char} (h : Ends s) : Unmodified s := by
  rcases h with h | ⟨t, h⟩ <;> simp [Unmodified, h]

lemma Ends.afterAt {s : List Char} (h : Ends s) (op : OperatorMark) : afterAt op s = none := by
  rw [afterAt_eq]
  rcases h with h | ⟨t, h⟩ <;> rw [h] <;> cases op <;> rfl

/-- A chain is read from `s` up to `r`. -/
def ReadsChain (total : Nat) (s : List Char) (joined : Joined) (r : List Char) : Prop :=
  ∃ r₁ r₂, conjunctsAt total s = some (joined.conjuncts, r₁) ∧
    moreMembers total r₁ = (joined.members, r₂) ∧ moreDisjuncts total r₂ = (joined.disjuncts, r)

lemma ReadsChain.members {total : Nat} {s r : List Char} {joined : Joined}
    (h : ReadsChain total s joined r) :
    ∃ r₂, membersAt total s = some (joined.juxtaposition, r₂) ∧
      moreDisjuncts total r₂ = (joined.disjuncts, r) := by
  obtain ⟨r₁, r₂, hc, hm, hd⟩ := h
  refine ⟨r₂, ?_, hd⟩
  rw [membersAt_eq, hc, Option.map_some, hm]
  rfl

theorem ReadsChain.disjuncts {total : Nat} {s r : List Char} {joined : Joined}
    (h : ReadsChain total s joined r) : disjunctsAt total s = some (joined.alternatives, r) := by
  obtain ⟨r₂, hm, hd⟩ := h.members
  rw [disjunctsAt_eq, hm, Option.map_some, hd]
  rfl

lemma operandAt_append {g : List Char} (hg : IsGap g) (total : Nat) (s : List Char) :
    operandAt total (g ++ s) = operandAt total s := by
  rw [operandAt_eq, operandAt_eq, skipGap_append hg]

lemma conjunctsAt_append {g : List Char} (hg : IsGap g) (total : Nat) (s : List Char) :
    conjunctsAt total (g ++ s) = conjunctsAt total s := by
  rw [conjunctsAt_eq, conjunctsAt_eq, operandAt_append hg]

lemma ReadsChain.append {total : Nat} {g s r : List Char} {joined : Joined}
    (h : ReadsChain total s joined r) (hg : IsGap g) : ReadsChain total (g ++ s) joined r := by
  obtain ⟨r₁, r₂, hc, hm, hd⟩ := h
  exact ⟨r₁, r₂, by rw [conjunctsAt_append hg, hc], hm, hd⟩

lemma ReadsChain.starts {total : Nat} {s r : List Char} {joined : Joined}
    (h : ReadsChain total s joined r) : startsOperand s = true := by
  obtain ⟨r₁, r₂, hc, -, -⟩ := h
  rw [conjunctsAt_eq, Option.map_eq_some_iff] at hc
  obtain ⟨x, hx, -⟩ := hc
  exact startsOperand_of_operandAt hx

lemma conjunctsAt_eq_none {total : Nat} {s : List Char} (h : startsOperand s = false) :
    conjunctsAt total s = none := by
  rw [conjunctsAt_eq, operandAt_eq_none h, Option.map_none]

lemma membersAt_eq_none {total : Nat} {s : List Char} (h : startsOperand s = false) :
    membersAt total s = none := by
  rw [membersAt_eq, conjunctsAt_eq_none h, Option.map_none]

lemma afterAt_append {g : List Char} (hg : IsGap g) (op : OperatorMark) (s : List Char) :
    afterAt op (g ++ s) = afterAt op s := by
  rw [afterAt_eq, afterAt_eq, skipGap_append hg]

/-- A reserved word with no colon behind it starts no operand. -/
lemma startsOperand_reserved {k s : List Char} (hk : k = ['A', 'N', 'D'] ∨ k = ['O', 'R'])
    (hs : atWordChar s = false) (hcolon : colonAhead s = false) :
    startsOperand (k ++ s) = false := by
  have hrun : Run false k := by
    rcases hk with rfl | rfl <;> repeat (first | exact .nil | refine .plain rfl ?_)
  have hne : k ≠ [] := by rcases hk with rfl | rfl <;> simp
  have hsigned : prefixAt (k ++ s) = none := by
    rw [prefixAt_eq, keyword?_append (plain_of_mem_keyword (by simp)) hrun hs]
    rcases hk with rfl | rfl <;> rfl
  have hhead : (headAt (k ++ s)).isSome = false := by
    have := mt (headAt_run_isSome hrun hs).1 (by simp [hcolon])
    simpa using this
  have hopen : opensElement (k ++ s) = false := by
    rw [opensElement_run hrun hne hs]
    rcases hk with rfl | rfl <;> rfl
  rw [startsOperand_eq, skipGap_run hrun hne, hsigned, startsElement, hhead, hopen]
  rfl

lemma colonAhead_of_startsOperand {s : List Char} (h : startsOperand s = true) :
    colonAhead s = false := by
  cases hc : colonAhead s
  · rfl
  · rw [(halts_of_colonAhead hc).startsOperand] at h
    cases h

lemma afterAt_keyword (op : OperatorMark) {s : List Char} (h : atWordChar s = false) :
    afterAt op (op.word.toList ++ s) = some s := by
  have hgap : skipGap (op.word.toList ++ s) = op.word.toList ++ s := by cases op <;> rfl
  rw [afterAt_eq, hgap, OperatorMark.read?, keyword?_self h]
  rfl

lemma afterAt_and (keyword : Bool) {s : List Char} (h : keyword = true → atWordChar s = false) :
    afterAt .and (andText keyword ++ s) = some s := by
  cases keyword with
  | true => exact afterAt_keyword .and (h rfl)
  | false => rfl

lemma afterAt_and_or (s : List Char) : afterAt .and ('O' :: 'R' :: s) = none := by
  rfl

/-- One link of a chain: what is read behind it joins the operand in front of it. -/
theorem ReadsChain.attach {total : Nat} {s t r : List Char} {tree : Tree} {link : Link}
    {joined : Joined} (hfirst : operandAt total s = some (tree, link.text ++ t))
    (hlink : link.Valid t) (hrest : ReadsChain total t joined r) :
    ReadsChain total s (link.attach tree joined) r := by
  have hstart := hrest.starts
  cases link with
  | and before keyword after =>
    obtain ⟨r₁, r₂, hc, hm, hd⟩ := hrest.append after.blank
    refine ⟨r₁, r₂, ?_, hm, hd⟩
    have hafter : afterAt .and (before.chars ++ (andText keyword ++ after.chars) ++ t) =
        some (after.chars ++ t) := by
      rw [List.append_assoc, afterAt_append before.blank, List.append_assoc]
      exact afterAt_and keyword hlink
    rw [conjunctsAt_eq, hfirst, Option.map_some, moreConjuncts, Link.text, hafter,
      Option.bind_some, hc]
    rfl
  | beside gap =>
    obtain ⟨r₂, hm, hd⟩ := hrest.members
    refine ⟨gap.chars ++ t, r₂, ?_, ?_, hd⟩
    · have hnone : (afterAt .and (gap.chars ++ t)).bind (conjunctsAt total) = none := by
        rw [afterAt_append gap.blank, Option.bind_eq_none_iff]
        intro u hu
        refine conjunctsAt_eq_none ?_
        simpa [Link.Valid, takesAnd, hu] using hlink
      rw [conjunctsAt_eq, hfirst, Option.map_some, moreConjuncts, Link.text, hnone]
      rfl
    · rw [moreMembers, membersAt_eq, conjunctsAt_append gap.blank, ← membersAt_eq, hm]
      rfl
  | or before after =>
    have hcolon : colonAhead (after.chars ++ t) = false := by
      rw [colonAhead_append after.blank, colonAhead_of_startsOperand hstart]
    have hnostart : startsOperand (before.chars ++ 'O' :: 'R' :: (after.chars ++ t)) = false := by
      rw [startsOperand_append before.blank]
      exact startsOperand_reserved (.inr rfl) hlink hcolon
    have hafter : afterAt .or (before.chars ++ 'O' :: 'R' :: (after.chars ++ t)) =
        some (after.chars ++ t) := by
      rw [afterAt_append before.blank]
      exact afterAt_keyword .or hlink
    have hand : afterAt .and (before.chars ++ 'O' :: 'R' :: (after.chars ++ t)) = none := by
      rw [afterAt_append before.blank, afterAt_and_or]
    have htext : (Link.or before after).text ++ t =
        before.chars ++ 'O' :: 'R' :: (after.chars ++ t) := by simp [Link.text]
    refine ⟨(Link.or before after).text ++ t, (Link.or before after).text ++ t, ?_, ?_, ?_⟩
    · rw [conjunctsAt_eq, hfirst, Option.map_some, moreConjuncts, htext, hand]
      rfl
    · rw [moreMembers, htext, membersAt_eq_none hnostart]
      rfl
    · have := (hrest.append after.blank).disjuncts
      rw [moreDisjuncts, htext, hafter, Option.bind_some, this]
      rfl

lemma ReadsChain.last {total : Nat} {s r : List Char} {tree : Tree}
    (h : operandAt total s = some (tree, r)) (hr : Ends r) :
    ReadsChain total s (.single tree) r := by
  refine ⟨r, r, ?_, ?_, ?_⟩
  · rw [conjunctsAt_eq, h, Option.map_some, moreConjuncts, hr.afterAt]
    rfl
  · rw [moreMembers, membersAt_eq_none hr.halts.startsOperand]
    rfl
  · rw [moreDisjuncts, hr.afterAt]
    rfl

/-! ### Spellings -/

/-- What it means that a spelling is read as spelled. An element may still have modifiers behind it
when the reader of elements returns. -/
def Spelling.Reads : {k : Rank} → Spelling k → Prop
  | .element, p => ∀ total r, p.Valid r → ∃ tree s,
      elementAt total (p.text ++ r) = some (tree, s) ∧
      modifiers tree s = modifiers (p.tree total r) r
  | .operand, p => ∀ total r, p.Valid r → Unmodified r →
      operandAt total (p.text ++ r) = some (p.tree total r, r)
  | .chain, p => ∀ total r, p.Valid r → Ends r →
      ReadsChain total (p.text ++ r) (p.joined total r) r

lemma enclosedAt_append {total : Nat} (before : Gap) {after : Gap} {s r : List Char}
    {joined : Joined} (h : ReadsChain total s joined (after.chars ++ ')' :: r)) :
    enclosedAt total ('(' :: (before.chars ++ s)) = some (joined.tree, r) := by
  have hread := (h.append before.blank).disjuncts
  rw [enclosedAt_eq]
  simp only [hread, Option.bind_some]
  rw [skipGap_append after.blank, skipGap_of_head rfl]
  rfl

lemma ends_append (after : Gap) (r : List Char) : Ends (after.chars ++ ')' :: r) := by
  refine .inr ⟨r, ?_⟩
  rw [skipGap_append after.blank, skipGap_of_head rfl]

lemma elementAt_named {total : Nat} {head : FieldHead} (hname : IsFieldName head.name.toList)
    {s t r : List Char} {tree : Tree} (hgap : skipGap t = t) (hs : s = head.text ++ t)
    (h : valueAt total t = some (tree, r)) :
    elementAt total s =
      some (.field head.name tree ⟨total - byteLength s, total - byteLength r⟩, r) := by
  have hhead : headAt s = some (head.name, head.after.chars ++ t) := hs ▸ head.read hname t
  rw [elementAt_eq, hhead, Option.bind_some, skipGap_append head.after.blank, hgap, h]
  rfl

lemma elementAt_unnamed {total : Nat} {s : List Char} {x : Tree × List Char}
    (hhead : headAt s = none) (h : unnamedAt total s = some x) : elementAt total s = some x := by
  rw [elementAt_eq, hhead, h]
  rfl

lemma Spelling.reads_atom (head : Option FieldHead) (value : Atom) :
    (Spelling.atom head value).Reads := by
  intro total r h
  refine ⟨_, _, ?_, rfl⟩
  obtain ⟨hname, hvalue⟩ := h
  cases head with
  | none =>
    refine elementAt_unnamed hvalue.not_named ?_
    have hread : plainAt false (value.text ++ r) = _ := hvalue.read
    rw [unnamedAt, Spelling.text, headText, List.nil_append, hvalue.not_enclosed, hread]
    rfl
  | some head =>
    have hgap := skipGap_of_head? fun c hc => (hvalue.head (s := r) hc).1
    refine elementAt_named (hname head rfl) hgap (by simp [Spelling.text, headText]) ?_
    have hread : plainAt true (value.text ++ r) = _ := hvalue.read
    rw [valueAt, hvalue.not_enclosed, hread]
    rfl

lemma Spelling.reads_group (head : Option FieldHead) (before : Gap) {inner : Spelling .chain}
    (after : Gap) (ih : inner.Reads) : (Spelling.group head before inner after).Reads := by
  intro total r h
  refine ⟨_, _, ?_, rfl⟩
  obtain ⟨hname, hinner⟩ := h
  have hread := enclosedAt_append before (ih total _ hinner (ends_append after r))
  cases head with
  | none =>
    refine elementAt_unnamed rfl ?_
    simp only [Spelling.text, headText, List.nil_append, List.cons_append, List.append_assoc]
    rw [unnamedAt, hread]
    rfl
  | some head =>
    refine elementAt_named (hname head rfl)
      (t := '(' :: (before.chars ++ (inner.text ++ (after.chars ++ ')' :: r)))) rfl
      (by simp [Spelling.text, headText]) ?_
    rw [valueAt, hread]
    rfl

lemma prefixAt_sign {op : PrefixOp} {s : List Char} (h : op = .not → atWordChar s = false) :
    prefixAt (signText op ++ s) = some (op, s) := by
  cases op with
  | not =>
    have := keyword?_self (k := "NOT") (h rfl)
    rw [prefixAt_eq]
    simp only [show "NOT".toList = signText .not from rfl] at this
    rw [this]
    rfl
  | plus => rfl
  | minus => rfl

lemma skipGap_sign (op : PrefixOp) (s : List Char) :
    skipGap (signText op ++ s) = signText op ++ s := by cases op <;> rfl

lemma Spelling.reads_prefixed (op : PrefixOp) (gap : Gap) {operand : Spelling .operand}
    (ih : operand.Reads) : (Spelling.prefixed op gap operand).Reads := by
  intro total r h hr
  obtain ⟨hword, hoperand⟩ := h
  have hread := ih total r hoperand hr
  rw [operandAt_eq, Spelling.text, List.append_assoc, List.append_assoc, skipGap_sign,
    prefixAt_sign hword, Option.bind_some, operandAt_append gap.blank, hread]
  rfl

lemma prefixAt_eq_none {s : List Char} (hword : keyword? "NOT" s = none)
    (hsign : ∀ c, s.head? = some c → c ≠ '+' ∧ c ≠ '-') : prefixAt s = none := by
  rw [prefixAt_eq, hword]
  simp only [Option.map_none, Option.none_or]
  split
  · exact absurd rfl (hsign '+' rfl).1
  · exact absurd rfl (hsign '-' rfl).2
  · rfl

lemma IsTerm.unprefixed {colons : Bool} {w r : List Char} (h : IsTerm colons w)
    (hr : atWordChar r = false) : prefixAt (w ++ r) = none := by
  have hfree := h.free
  simp only [atReserved, Bool.or_eq_false_iff, Option.isSome_eq_false_iff,
    Option.isNone_iff_eq_none]
    at hfree
  refine prefixAt_eq_none ?_ fun c hc => ?_
  · rw [keyword?_append (plain_of_mem_keyword (by simp)) h.run hr, hfree.2]
    rfl
  · obtain ⟨d, t, rfl⟩ := List.exists_cons_of_ne_nil h.ne_nil
    exact ⟨(h.start c hc).1, (h.start c hc).2.1⟩

/-- A prefix is read from a field's name only if the name is `NOT`, and then a colon comes next. -/
lemma FieldHead.not_prefixed {head : FieldHead} (h : IsFieldName head.name.toList) {s t : List Char}
    {op : PrefixOp} (hp : prefixAt (head.text ++ s) = some (op, t)) : startsOperand t = false := by
  have hplain := plain_of_mem_keyword (k := "NOT") (by simp)
  have hrest := runsOn_gap_colon (s := head.after.chars ++ s) head.before.blank
  have htext : head.text ++ s =
      head.name.toList ++ (head.before.chars ++ ':' :: (head.after.chars ++ s)) := by
    simp [FieldHead.text]
  have hrun := h.run
  obtain ⟨c, u, hname, hc, -⟩ := h
  rw [htext] at hp
  rcases prefixAt_eq_some hp with ⟨rfl, hk⟩ | ⟨rfl, hk⟩ | ⟨rfl, hk⟩
  · rw [keyword?_append hplain hrun hrest, Option.map_eq_some_iff] at hk
    obtain ⟨v, hv, rfl⟩ := hk
    obtain ⟨-, rfl⟩ := eq_of_keyword? hplain hrun rfl hv
    refine (halts_of_colonAhead ?_).startsOperand
    exact colonAhead_iff.2 ⟨_, _, head.before.blank, rfl⟩
  all_goals
    simp only [hname, List.cons_append, List.cons.injEq] at hk
    rw [hk.1] at hc
    cases hc

lemma FieldHead.skipGap {head : FieldHead} (h : IsFieldName head.name.toList) (s : List Char) :
    skipGap (head.text ++ s) = head.text ++ s := by
  have hne : head.name.toList ≠ [] := by
    obtain ⟨c, u, hname, -⟩ := h
    simp [hname]
  simpa [FieldHead.text] using skipGap_run
    (s := head.before.chars ++ ':' :: (head.after.chars ++ s))
    h.run hne

/-- An element starts at once, and what is read as a prefix there is none. -/
lemma Spelling.Valid.element {r : List Char} : {p : Spelling .element} → p.Valid r →
    skipGap (p.text ++ r) = p.text ++ r ∧
      ∀ op t, prefixAt (p.text ++ r) = some (op, t) → startsOperand t = false
  | .atom none value, h => by
    obtain ⟨-, hvalue⟩ := h
    refine ⟨skipGap_of_head? fun c hc => (hvalue.head hc).1, fun op t hp => ?_⟩
    have hnone : prefixAt (value.text ++ r) = none := by
      cases value with
      | word text => exact hvalue.1.unprefixed hvalue.2.1
      | phrase text =>
        obtain ⟨u, hu⟩ := IsPhrase.exists_cons hvalue
        rw [Atom.text, hu]
        rfl
      | range includeLow includeHigh g₁ low g₂ g₃ high g₄ => cases includeLow <;> rfl
    cases hnone.symm.trans hp
  | .group none before inner after, h => by
    refine ⟨rfl, fun op t hp => ?_⟩
    cases hp
  | .atom (some head) value, h => by
    have htext : (Spelling.atom (some head) value).text ++ r = head.text ++ (value.text ++ r) := by
      simp [Spelling.text, headText]
    rw [htext]
    exact ⟨head.skipGap (h.1 head rfl) _, fun op t hp => head.not_prefixed (h.1 head rfl) hp⟩
  | .group (some head) before inner after, h => by
    rw [Spelling.text, headText, List.append_assoc]
    exact ⟨head.skipGap (h.1 head rfl) _, fun op t hp => head.not_prefixed (h.1 head rfl) hp⟩
  | .modified operand gap modifier number, h => by
    simpa [Spelling.text] using Spelling.Valid.element h.1

/-- A field that is called like a prefix is not read as one. -/
lemma Spelling.reads_bare {element : Spelling .element} (ih : element.Reads) :
    (Spelling.bare element).Reads := by
  intro total r h hr
  obtain ⟨tree, s, hread, hmodified⟩ := ih total r h
  obtain ⟨hgap, hsigned⟩ := Spelling.Valid.element h
  have hnone : ((prefixAt (element.text ++ r)).bind fun x =>
      (operandAt total x.2).map fun y => (Tree.prefixed x.1 y.1, y.2)) = none := by
    rw [Option.bind_eq_none_iff]
    intro x hx
    rw [operandAt_eq_none (hsigned x.1 x.2 hx), Option.map_none]
  rw [operandAt_eq, Spelling.text, hgap, hnone, hread, Option.none_or, Option.map_some, hmodified,
    modifiers_of_unmodified hr]
  rfl

/-- All spellings but chains have a single operand. -/
lemma Spelling.joined_operand (p : Spelling .operand) (total : Nat) (r : List Char) :
    p.joined total r = .single (p.tree total r) := by
  cases p with
  | bare element => cases element <;> rfl
  | prefixed op gap operand => rfl

/-- No modifier stands in front of a link and the operand behind it. -/
lemma Link.unmodified (link : Link) {s : List Char} (h : startsOperand s = true) :
    Unmodified (link.text ++ s) := by
  cases link with
  | and before keyword after =>
    rw [Unmodified, Link.text, List.append_assoc, skipGap_append before.blank]
    cases keyword <;> simp [andText, Query.skipGap, isGap]
  | beside gap =>
    rw [Unmodified, Link.text, skipGap_append gap.blank]
    exact Unmodified.of_startsOperand h
  | or before after =>
    rw [Unmodified, Link.text, List.append_assoc, skipGap_append before.blank]
    simp [Query.skipGap, isGap]

theorem Spelling.reads {k : Rank} (p : Spelling k) : p.Reads := by
  induction p with
  | atom head value => exact Spelling.reads_atom head value
  | group head before inner after ih => exact Spelling.reads_group head before after ih
  | modified operand gap modifier number ih =>
    intro total r h
    obtain ⟨hoperand, hnumber⟩ := h
    obtain ⟨tree, s, hread, hmodified⟩ := ih total _ hoperand
    refine ⟨tree, s, ?_, ?_⟩
    · simpa [Spelling.text] using hread
    · have hgap : skipGap (gap.chars ++ modifier.mark :: (optionalChars number ++ r)) =
          modifier.mark :: (optionalChars number ++ r) := by
        rw [skipGap_append gap.blank]
        cases modifier <;> rfl
      rw [hmodified, modifiers_mark hgap, hnumber]
      rfl
  | bare element ih => exact Spelling.reads_bare ih
  | prefixed op gap operand ih => exact Spelling.reads_prefixed op gap ih
  | single operand ih =>
    intro total r h hr
    rw [Spelling.joined, operand.joined_operand]
    exact .last (ih total r h hr.unmodified) hr
  | linked first link rest ihFirst ihRest =>
    intro total r h hr
    obtain ⟨hfirst, hlink, hrest⟩ := h
    have hread := ihRest total r hrest hr
    have hoperand := ihFirst total _ hfirst (link.unmodified hread.starts)
    have htext : (Spelling.linked first link rest).text ++ r =
        first.text ++ (link.text ++ (rest.text ++ r)) := by simp [Spelling.text]
    rw [Spelling.joined, htext]
    exact .attach hoperand hlink hread

lemma Gap.skip_eq_nil (gap : Gap) : skipGap gap.chars = [] := by
  rw [← List.append_nil gap.chars, skipGap_append gap.blank]
  rfl

/-- A text that is spelled validly up to its end has the spelled tree. -/
theorem Spelling.ofChars? (before after : Gap) {p : Spelling .chain} (h : p.Valid after.chars) :
    Tree.ofChars? (before.chars ++ (p.text ++ after.chars)) =
      some (p.tree (byteLength (before.chars ++ (p.text ++ after.chars))) after.chars) := by
  have hgap := after.skip_eq_nil
  have hread := (p.reads (byteLength (before.chars ++ (p.text ++ after.chars))) after.chars h
    (.inl hgap)).append before.blank
  rw [ofChars?_eq, hread.disjuncts, Option.bind_some, if_pos hgap]
  rfl

end SkyResolver.Query
