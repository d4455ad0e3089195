import SkyResolver.Proofs.Query.Reads

/-! Whatever is read has a spelling. From a successful reading up to a text that may follow, the
spelling is rebuilt with all blanks and operators; the proof goes by the length of the text. -/
namespace SkyResolver.Query
open SkyResolver.Text

lemma exists_gap_of_skipGap (s : List Char) : ∃ g : Gap, s = g.chars ++ skipGap s := by
  obtain ⟨g, hg, hs⟩ := exists_gap s
  exact ⟨⟨g, hg⟩, hs⟩

/-! ### Atoms -/

lemma exists_bound {s r : List Char} {tree : Tree} (h : boundAt s = some (tree, r)) :
    ∃ bound : Bound, s = bound.text ++ r ∧ bound.tree = tree ∧ bound.Valid r := by
  rw [boundAt_eq, Option.or_eq_some_iff] at h
  rcases h with h | ⟨-, h⟩
  · obtain ⟨⟨text, r'⟩, hphrase, heq⟩ := Option.map_eq_some_iff.1 h
    cases heq
    obtain ⟨hs, hp⟩ := phrase?_eq_some hphrase
    exact ⟨.phrase text, hs, rfl, hp⟩
  · obtain ⟨⟨text, r'⟩, hword, heq⟩ := Option.map_eq_some_iff.1 h
    cases heq
    obtain ⟨hs, hw, hr⟩ := bound?_eq_some hword
    exact ⟨.word text, hs, rfl, hw, hr⟩

lemma exists_interior {includeLow : Bool} {s r : List Char} {tree : Tree}
    (h : interiorAt includeLow s = some (tree, r)) :
    ∃ atom : Atom, openingBracket includeLow :: s = atom.text ++ r ∧ atom.tree = tree ∧
      ∀ colons, atom.Valid colons r := by
  unfold interiorAt at h
  simp only [Option.bind_eq_some_iff, Prod.exists] at h
  obtain ⟨low, r₁, hlow, r₂, hto, high, r₃, hhigh, h⟩ := h
  obtain ⟨low, hs₁, rfl, hlowValid⟩ := exists_bound hlow
  obtain ⟨hs₂, hword⟩ := keyword?_eq_some hto
  obtain ⟨high, hs₃, rfl, hhighValid⟩ := exists_bound hhigh
  obtain ⟨g₁, hg₁⟩ := exists_gap_of_skipGap s
  obtain ⟨g₂, hg₂⟩ := exists_gap_of_skipGap r₁
  obtain ⟨g₃, hg₃⟩ := exists_gap_of_skipGap r₂
  obtain ⟨g₄, hg₄⟩ := exists_gap_of_skipGap r₃
  have hend : ∃ includeHigh, skipGap r₃ = closingBracket includeHigh :: r ∧
      tree = .range low.tree high.tree includeLow includeHigh := by
    split at h
    · rename_i r' hr'
      cases h
      exact ⟨true, hr', rfl⟩
    · rename_i r' hr'
      cases h
      exact ⟨false, hr', rfl⟩
    · cases h
  obtain ⟨includeHigh, hr₃, rfl⟩ := hend
  rw [hr₃] at hg₄
  rw [hs₃, hg₄] at hg₃
  rw [hs₂, hg₃] at hg₂
  rw [hs₁, hg₂] at hg₁
  refine ⟨.range includeLow includeHigh g₁ low g₂ g₃ high g₄, ?_, rfl, fun colons => ⟨?_, ?_, ?_⟩⟩
  · rw [hg₁]
    simp [Atom.text]
  · rwa [hg₂] at hlowValid
  · rwa [hg₃] at hword
  · rwa [hg₄] at hhighValid

lemma exists_atom {colons : Bool} {s r : List Char} {tree : Tree}
    (h : plainAt colons s = some (tree, r)) (hcolon : colonAhead r = false) :
    ∃ atom : Atom, s = atom.text ++ r ∧ atom.tree = tree ∧ atom.Valid colons r := by
  rw [plainAt_eq, Option.or_eq_some_iff, Option.or_eq_some_iff] at h
  rcases h with (h | ⟨-, h⟩) | ⟨-, h⟩
  · rw [rangeAt_eq] at h
    split at h
    · obtain ⟨atom, hs, htree, hvalid⟩ := exists_interior h
      exact ⟨atom, hs, htree, hvalid colons⟩
    · obtain ⟨atom, hs, htree, hvalid⟩ := exists_interior h
      exact ⟨atom, hs, htree, hvalid colons⟩
    · cases h
  · obtain ⟨⟨text, r'⟩, hphrase, heq⟩ := Option.map_eq_some_iff.1 h
    cases heq
    obtain ⟨hs, hp⟩ := phrase?_eq_some hphrase
    exact ⟨.phrase text, hs, rfl, hp⟩
  · obtain ⟨⟨text, r'⟩, hword, heq⟩ := Option.map_eq_some_iff.1 h
    cases heq
    obtain ⟨hs, hw, hr⟩ := term?_eq_some hword
    exact ⟨.word text, hs, rfl, hw, atWordChar_of_runsOn hr, hcolon⟩

/-! ### Elements and operands -/

/-- The chain that is read from a text has a spelling. -/
def ChainRecovers (total : Nat) (s : List Char) : Prop :=
  ∀ joined r, ReadsChain total s joined r → Ends r → ∃ (gap : Gap) (p : Spelling .chain),
    s = gap.chars ++ (p.text ++ r) ∧ p.joined total r = joined ∧ p.Valid r

lemma readsChain_of_disjunctsAt {total : Nat} {s r : List Char} {trees : List Tree}
    (h : disjunctsAt total s = some (trees, r)) :
    ∃ joined, ReadsChain total s joined r ∧ joined.alternatives = trees := by
  rw [disjunctsAt_eq, Option.map_eq_some_iff] at h
  obtain ⟨⟨members, r₂⟩, hm, h⟩ := h
  rw [membersAt_eq, Option.map_eq_some_iff] at hm
  obtain ⟨⟨conjuncts, r₁⟩, hc, hm⟩ := hm
  cases hm
  cases h
  exact ⟨⟨_, _, _⟩, ⟨r₁, _, hc, rfl, rfl⟩, rfl⟩

lemma exists_enclosed {total : Nat} {s r : List Char} {tree : Tree}
    (ih : ∀ t : List Char, t.length < s.length → ChainRecovers total t)
    (h : enclosedAt total s = some (tree, r)) :
    ∃ (before after : Gap) (p : Spelling .chain),
      s = '(' :: (before.chars ++ (p.text ++ (after.chars ++ ')' :: r))) ∧
        p.tree total (after.chars ++ ')' :: r) = tree ∧ p.Valid (after.chars ++ ')' :: r) := by
  rw [enclosedAt_eq] at h
  split at h
  · rename_i t
    obtain ⟨⟨trees, r₁⟩, hread, h⟩ := Option.bind_eq_some_iff.1 h
    dsimp only at h
    split at h
    · rename_i r₂ hr₂
      cases h
      obtain ⟨joined, hchain, rfl⟩ := readsChain_of_disjunctsAt hread
      obtain ⟨before, p, ht, rfl, hp⟩ := ih t (by simp) joined r₁ hchain (.inr ⟨r, hr₂⟩)
      obtain ⟨after, hafter⟩ := exists_gap_of_skipGap r₁
      rw [hr₂] at hafter
      rw [hafter] at ht hp
      exact ⟨before, after, p, by rw [ht], by rw [hafter]; rfl, hp⟩
    · cases h
  · cases h

/-- What is read behind the head of a field, or where there is none. -/
lemma exists_named {total : Nat} (head : Option FieldHead) {s r : List Char} {tree : Tree}
    (hhead : ∀ h ∈ head, IsFieldName h.name.toList)
    (ih : ∀ t : List Char, t.length < s.length → ChainRecovers total t)
    (h : ((enclosedAt total s).map fun x =>
      (if head.isSome then .fieldGroup x.1 else .group x.1, x.2)).or (plainAt head.isSome s) =
        some (tree, r)) (hcolon : colonAhead r = false) :
    ∃ p : Spelling .element, headText head ++ s = p.text ++ r ∧ p.Valid r ∧
      p.tree total r =
        named head ⟨total - byteLength (headText head ++ s), total - byteLength r⟩ tree tree := by
  rw [Option.or_eq_some_iff] at h
  rcases h with h | ⟨-, h⟩
  · simp only [Option.map_eq_some_iff, Prod.mk.injEq, Prod.exists] at h
    obtain ⟨inner, r, hread, rfl, rfl⟩ := h
    obtain ⟨before, after, p, hs, rfl, hp⟩ := exists_enclosed ih hread
    have htext : headText head ++ s = (Spelling.group head before p after).text ++ r := by
      simp [hs, Spelling.text]
    refine ⟨.group head before p after, htext, ⟨hhead, hp⟩, ?_⟩
    rw [htext]
    cases head <;> rfl
  · obtain ⟨atom, hs, rfl, hatom⟩ := exists_atom h hcolon
    have htext : headText head ++ s = (Spelling.atom head atom).text ++ r := by
      simp [hs, Spelling.text]
    refine ⟨.atom head atom, htext, ⟨hhead, hatom⟩, ?_⟩
    rw [htext]
    cases head <;> rfl

lemma exists_element {total : Nat} {s r : List Char} {tree : Tree}
    (ih : ∀ t : List Char, t.length < s.length → ChainRecovers total t)
    (h : elementAt total s = some (tree, r)) (hcolon : colonAhead r = false) :
    ∃ p : Spelling .element, s = p.text ++ r ∧ p.tree total r = tree ∧ p.Valid r := by
  rw [elementAt_eq, Option.or_eq_some_iff] at h
  rcases h with h | ⟨-, h⟩
  · obtain ⟨⟨name, t⟩, hhead, h⟩ := Option.bind_eq_some_iff.1 h
    simp only [Option.map_eq_some_iff, Prod.mk.injEq, Prod.exists] at h
    obtain ⟨value, r, hvalue, rfl, rfl⟩ := h
    obtain ⟨before, hbefore, hs, hname⟩ := headAt_eq_some hhead
    obtain ⟨after, hafter⟩ := exists_gap_of_skipGap t
    have hhead : s = headText (some ⟨name, ⟨before, hbefore⟩, after⟩) ++ skipGap t :=
      hs.trans (by simp [headText, FieldHead.text, ← hafter])
    have hlen : (skipGap t).length < s.length := by
      have := length_skipGap_le t
      rw [hs]
      simp
      omega
    obtain ⟨p, htext, hp, htree⟩ := exists_named (some ⟨name, ⟨before, hbefore⟩, after⟩)
      (by simpa using hname) (fun u hu => ih u (Nat.lt_trans hu hlen)) hvalue hcolon
    rw [← hhead] at htext htree
    exact ⟨p, htext, htree, hp⟩
  · obtain ⟨p, htext, hp, htree⟩ := exists_named none (by simp) ih h hcolon
    exact ⟨p, htext, htree, hp⟩

/-- Modifiers prolong the spelling of the element in front of them. -/
lemma exists_modified {total : Nat} {s r : List Char} {tree : Tree} {p : Spelling .element}
    (hp : p.Valid s) (h : modifiers (p.tree total s) s = (tree, r)) :
    ∃ q : Spelling .element, p.text ++ s = q.text ++ r ∧ q.tree total r = tree ∧ q.Valid r := by
  induction hn : s.length using Nat.strongRecOn generalizing s p with
  | ind n ih =>
    subst hn
    by_cases hmark : ∃ (modifier : Modifier) (t : List Char), skipGap s = modifier.mark :: t
    · obtain ⟨modifier, t, ht⟩ := hmark
      obtain ⟨gap, hgap⟩ := exists_gap_of_skipGap s
      have hnumber : t = optionalChars (optionalNumber t).1 ++ (optionalNumber t).2 :=
        optionalNumber_eq rfl
      have hlen : (optionalNumber t).2.length < s.length := by
        have h₁ := length_skipGap_le s
        have h₂ := length_optionalNumber_le t
        rw [ht, List.length_cons] at h₁
        omega
      rw [ht, hnumber] at hgap
      rw [modifiers_mark ht] at h
      have hq : (Spelling.modified p gap modifier (optionalNumber t).1).Valid
          (optionalNumber t).2 := by
        refine ⟨hgap ▸ hp, ?_⟩
        rw [← hnumber]
      obtain ⟨q, htext, htree, hvalid⟩ := ih _ hlen hq (by
        rw [← h]
        conv_rhs => rw [hgap]
        rfl) rfl
      refine ⟨q, ?_, htree, hvalid⟩
      rw [← htext]
      conv_lhs => rw [hgap]
      simp [Spelling.text]
    · have hmodified : Unmodified s := by
        intro c hc
        obtain ⟨t, ht⟩ := List.head?_eq_some_iff.1 hc
        refine ⟨?_, ?_⟩
        · rintro rfl
          exact hmark ⟨.boost, t, ht⟩
        · rintro rfl
          exact hmark ⟨.approx, t, ht⟩
      rw [modifiers_of_unmodified hmodified] at h
      cases h
      exact ⟨p, rfl, rfl, hp⟩

/-- Behind an element stand its modifiers, in front of which no operand starts, or none. -/
lemma modifiers_cases {s r : List Char} {tree tree' : Tree} (h : modifiers tree s = (tree', r)) :
    r = s ∨ Halts (skipGap s) ∧ colonAhead s = false := by
  rw [modifiers] at h
  split at h
  · rename_i t ht
    exact .inr ⟨.inr ⟨'^', t, ht, by simp⟩, by simp [colonAhead, ht]⟩
  · rename_i t ht
    exact .inr ⟨.inr ⟨'~', t, ht, by simp⟩, by simp [colonAhead, ht]⟩
  · cases h
    exact .inl rfl

lemma colonAhead_of_modifiers {s r : List Char} {tree tree' : Tree}
    (h : modifiers tree s = (tree', r)) (hcolon : colonAhead r = false) : colonAhead s = false := by
  rcases modifiers_cases h with rfl | ⟨-, hs⟩
  · exact hcolon
  · exact hs

lemma exists_operand {total : Nat} {s r : List Char} {tree : Tree}
    (ih : ∀ t : List Char, t.length < s.length → ChainRecovers total t)
    (h : operandAt total s = some (tree, r)) (hcolon : colonAhead r = false) :
    ∃ (gap : Gap) (p : Spelling .operand),
      s = gap.chars ++ (p.text ++ r) ∧ p.tree total r = tree ∧ p.Valid r := by
  induction hn : s.length using Nat.strongRecOn generalizing s tree with
  | ind n ihLength =>
    subst hn
    obtain ⟨gap, hgap⟩ := exists_gap_of_skipGap s
    rw [operandAt_eq, Option.or_eq_some_iff] at h
    rcases h with h | ⟨-, h⟩
    · obtain ⟨⟨op, t⟩, hsigned, h⟩ := Option.bind_eq_some_iff.1 h
      simp only [Option.map_eq_some_iff, Prod.mk.injEq, Prod.exists] at h
      obtain ⟨operand, r, hoperand, rfl, rfl⟩ := h
      have hlen := Nat.lt_of_lt_of_le (length_lt_of_prefixAt hsigned) (length_skipGap_le s)
      obtain ⟨g, p, rfl, rfl, hp⟩ :=
        ihLength t.length hlen (fun u hu => ih u (Nat.lt_trans hu hlen)) hoperand rfl
      rcases prefixAt_eq_some hsigned with ⟨rfl, hk⟩ | ⟨rfl, hk⟩ | ⟨rfl, hk⟩
      · obtain ⟨hs, hword⟩ := keyword?_eq_some hk
        refine ⟨gap, .prefixed .not g p, ?_, rfl, fun _ => hword, hp⟩
        rw [hgap, hs]
        simp [Spelling.text, signText]
      · refine ⟨gap, .prefixed .plus g p, ?_, rfl, by simp, hp⟩
        rw [hgap, hk]
        simp [Spelling.text, signText]
      · refine ⟨gap, .prefixed .minus g p, ?_, rfl, by simp, hp⟩
        rw [hgap, hk]
        simp [Spelling.text, signText]
    · obtain ⟨⟨element, t⟩, helement, h⟩ := Option.map_eq_some_iff.1 h
      have hlen := length_skipGap_le s
      obtain ⟨p, hs, rfl, hp⟩ := exists_element (fun u hu => ih u (Nat.lt_of_lt_of_le hu hlen))
        helement (colonAhead_of_modifiers h hcolon)
      obtain ⟨q, htext, rfl, hq⟩ := exists_modified hp h
      exact ⟨gap, .bare q, by rw [hgap, hs, htext]; rfl, rfl, hq⟩

/-! ### Symbols read as words -/

lemma OperatorMark.isTerm_symbol (op : OperatorMark) {w : List Char} (hw : Run false w) :
    IsTerm false (op.symbol ++ w) := by
  have hrun : Run false (op.symbol ++ w) := by
    cases op
    · exact .plain rfl (.plain rfl hw)
    · exact .plain rfl (.plain rfl hw)
  refine ⟨hrun, by cases op <;> simp [OperatorMark.symbol], ?_, by cases op <;> rfl⟩
  intro c hc
  cases op <;> cases hc <;> decide

/-- Where an operator's symbol stands, a word can be read that starts with it. -/
lemma operandAt_symbol (total : Nat) (op : OperatorMark) {w r : List Char} (hw : Run false w)
    (hr : atWordChar r = false) : operandAt total (op.symbol ++ (w ++ r)) =
      some (modifiers (.word (String.ofList (op.symbol ++ w))) r) := by
  have hterm := op.isTerm_symbol hw
  have hread := term?_append hterm (s := r) (by simpa using hr)
  rw [List.append_assoc] at hread
  have hgap : skipGap (op.symbol ++ (w ++ r)) = op.symbol ++ (w ++ r) := by cases op <;> rfl
  have hsigned : prefixAt (op.symbol ++ (w ++ r)) = none := by cases op <;> rfl
  have hhead : headAt (op.symbol ++ (w ++ r)) = none := by cases op <;> rfl
  have hunnamed : unnamedAt total (op.symbol ++ (w ++ r)) =
      some (.word (String.ofList (op.symbol ++ w)), r) := by
    have henclosed : enclosedAt total (op.symbol ++ (w ++ r)) = none :=
      enclosedAt_eq_none (by cases op <;> simp [OperatorMark.symbol])
    have hrange : rangeAt (op.symbol ++ (w ++ r)) = none := by
      rw [rangeAt_eq]
      cases op <;> rfl
    have hphrase : phrase? (op.symbol ++ (w ++ r)) = none :=
      phrase?_eq_none (by cases op <;> simp [OperatorMark.symbol])
    rw [unnamedAt, henclosed, plainAt_eq, hrange, hphrase, hread]
    rfl
  rw [operandAt_eq, hgap, hsigned, elementAt_unnamed hhead hunnamed]
  rfl

lemma operandAt_symbol_isSome (total : Nat) (op : OperatorMark) (s : List Char) :
    (operandAt total (op.symbol ++ s)).isSome = true := by
  obtain ⟨hs, hw, hr⟩ := wordRun_eq (w := (wordRun false s).1) (r := (wordRun false s).2) rfl
  rw [hs, operandAt_symbol total op hw (by simpa using hr)]
  rfl

lemma afterAt_eq_some {op : OperatorMark} {s r : List Char} (h : afterAt op s = some r) :
    (skipGap s = op.word.toList ++ r ∧ atWordChar r = false) ∨ skipGap s = op.symbol ++ r := by
  rw [afterAt_eq, OperatorMark.read?] at h
  cases hk : keyword? op.word (skipGap s) with
  | some r' =>
    rw [hk] at h
    cases h
    exact .inl (keyword?_eq_some hk)
  | none =>
    rw [hk] at h
    exact .inr (afterPrefix?_eq_some_iff.1 h)

lemma colonAhead_of_afterAt {op : OperatorMark} {s r : List Char} (h : afterAt op s = some r) :
    colonAhead s = false := by
  rcases afterAt_eq_some h with ⟨hs, -⟩ | hs <;> rw [colonAhead, hs] <;> cases op <;> rfl

/-- Where no operand can be read, none starts. This fails in general, since an operand may start and
break off; behind a part of a query that goes on to its end it holds. -/
def Settled (total : Nat) (s : List Char) : Prop :=
  operandAt total s = none → startsOperand s = false

lemma Settled.of_afterAt {total : Nat} {op : OperatorMark} {s r : List Char}
    (h : afterAt op s = some r) (hr : startsOperand r = true) : Settled total s := by
  intro hnone
  rw [← startsOperand_skipGap]
  rw [operandAt_eq, ← skipGap_idem, ← operandAt_eq] at hnone
  rcases afterAt_eq_some h with ⟨hs, hword⟩ | hs
  · rw [hs]
    exact startsOperand_reserved (by cases op <;> decide) hword (colonAhead_of_startsOperand hr)
  · have := operandAt_symbol_isSome total op r
    rw [← hs, hnone] at this
    cases this

/-! ### Chains -/

lemma conjunctsAt_isNone {total : Nat} {s : List Char} :
    conjunctsAt total s = none ↔ operandAt total s = none := by
  rw [conjunctsAt_eq, Option.map_eq_none_iff]

lemma membersAt_isNone {total : Nat} {s : List Char} :
    membersAt total s = none ↔ operandAt total s = none := by
  rw [membersAt_eq, Option.map_eq_none_iff, conjunctsAt_isNone]

/-- What follows the first operand of a chain: an `AND`, another member, an `OR`, or nothing. -/
lemma ReadsChain.split {total : Nat} {s r r₁ : List Char} {tree : Tree} {joined : Joined}
    (h : ReadsChain total s joined r) (hfirst : operandAt total s = some (tree, r₁)) :
    (∃ t other, afterAt .and r₁ = some t ∧ ReadsChain total t other r ∧
      joined = ⟨tree :: other.conjuncts, other.members, other.disjuncts⟩) ∨
    (∃ other, (∀ t, afterAt .and r₁ = some t → operandAt total t = none) ∧
      ReadsChain total r₁ other r ∧ joined = ⟨[tree], other.juxtaposition, other.disjuncts⟩) ∨
    (∃ t other, operandAt total r₁ = none ∧ afterAt .or r₁ = some t ∧
      ReadsChain total t other r ∧ joined = ⟨[tree], [], other.alternatives⟩) ∨
    (r₁ = r ∧ joined = .single tree) := by
  obtain ⟨ra, rb, hc, hm, hd⟩ := h
  obtain ⟨conjuncts, members, disjuncts⟩ := joined
  rw [conjunctsAt_eq, hfirst] at hc
  simp only [Option.map_some, Option.some.injEq, Prod.mk.injEq] at hc
  obtain ⟨hconj, rfl⟩ := hc
  obtain rfl : tree :: (moreConjuncts total r₁).1 = conjuncts := hconj
  cases hand : (afterAt .and r₁).bind (conjunctsAt total) with
  | some x =>
    obtain ⟨t, ht, hx⟩ := Option.bind_eq_some_iff.1 hand
    refine .inl ⟨t, ⟨x.1, members, disjuncts⟩, ht, ⟨x.2, rb, hx, ?_, hd⟩, ?_⟩
    · simpa [moreConjuncts, hand] using hm
    · simp [moreConjuncts, hand]
  | none =>
    have hmore : moreConjuncts total r₁ = ([], r₁) := by simp [moreConjuncts, hand]
    rw [hmore] at hm ⊢
    right
    cases hmembers : membersAt total r₁ with
    | some x =>
      rw [moreMembers, hmembers, Option.getD_some] at hm
      rw [membersAt_eq, Option.map_eq_some_iff] at hmembers
      obtain ⟨y, hy, rfl⟩ := hmembers
      cases hm
      refine .inl ⟨⟨y.1, _, disjuncts⟩, ?_, ⟨y.2, _, hy, rfl, hd⟩, rfl⟩
      intro t ht
      rw [ht, Option.bind_some] at hand
      exact conjunctsAt_isNone.1 hand
    | none =>
      rw [moreMembers, hmembers, Option.getD_none] at hm
      cases hm
      right
      cases hor : (afterAt .or r₁).bind (disjunctsAt total) with
      | some x =>
        obtain ⟨t, ht, hx⟩ := Option.bind_eq_some_iff.1 hor
        obtain ⟨other, hother, halternatives⟩ := readsChain_of_disjunctsAt (r := x.2) hx
        rw [moreDisjuncts, hor, Option.getD_some] at hd
        cases hd
        exact .inl ⟨t, other, membersAt_isNone.1 hmembers, ht, hother, by rw [halternatives]⟩
      | none =>
        rw [moreDisjuncts, hor, Option.getD_none] at hd
        cases hd
        exact .inr ⟨rfl, rfl⟩

/-- What stands behind the first operand of a chain. -/
lemma ReadsChain.settled {total : Nat} {s r r₁ : List Char} {tree : Tree} {joined : Joined}
    (h : ReadsChain total s joined r) (hr : Ends r) (hfirst : operandAt total s = some (tree, r₁)) :
    colonAhead r₁ = false ∧ Settled total r₁ := by
  rcases h.split hfirst with ⟨t, other, ht, hother, -⟩ | ⟨other, -, hother, -⟩ |
    ⟨t, other, -, ht, hother, -⟩ | ⟨rfl, -⟩
  · exact ⟨colonAhead_of_afterAt ht, .of_afterAt ht hother.starts⟩
  · refine ⟨colonAhead_of_startsOperand hother.starts, fun hnone => ?_⟩
    obtain ⟨_, _, hc, -, -⟩ := hother
    rw [conjunctsAt_isNone.2 hnone] at hc
    cases hc
  · exact ⟨colonAhead_of_afterAt ht, .of_afterAt ht hother.starts⟩
  · have hstart := hr.halts.startsOperand
    refine ⟨?_, fun _ => hstart⟩
    rcases hr with hr | ⟨t, hr⟩ <;> rw [colonAhead, hr] <;> rfl

lemma isTerm_of_opensElement {w s : List Char} (hw : Run false w) (hne : w ≠ [])
    (hs : atWordChar s = false) (h : opensElement (w ++ s) = true) : IsTerm false w := by
  rw [opensElement_run hw hne hs] at h
  simp only [Bool.and_eq_true, Bool.not_eq_true', bne_iff_ne, ne_eq] at h
  obtain ⟨⟨⟨hfree, -⟩, hplus⟩, hminus⟩ := h
  refine ⟨hw, hne, fun c hc => ⟨?_, ?_, ?_⟩, hfree⟩
  · rintro rfl
    exact hplus hc
  · rintro rfl
    exact hminus hc
  · rintro rfl
    cases hw with
    | nil => cases hc
    | escaped => cases hc
    | plain hplain _ =>
      cases hc
      cases hplain

lemma settled_run {total : Nat} {w s : List Char} (hw : Run false w) (hs : atWordChar s = false)
    (hcolon : colonAhead s = false) (h : Settled total s) : Settled total (w ++ s) := by
  induction hn : w.length using Nat.strongRecOn generalizing w with
  | ind n ih =>
    subst hn
    by_cases hne : w = []
    · rwa [hne]
    intro hnone
    rw [operandAt_eq, skipGap_run hw hne, Option.or_eq_none_iff, Option.map_eq_none_iff] at hnone
    obtain ⟨hsigned, helement⟩ := hnone
    have hsign : ((prefixAt (w ++ s)).any fun x => startsOperand x.2) = false := by
      cases hp : prefixAt (w ++ s) with
      | none => rfl
      | some x =>
        obtain ⟨v, hx, hv, hlt, -⟩ := prefixAt_run hw hs hne hp
        rw [hp, Option.bind_some, Option.map_eq_none_iff, hx] at hsigned
        rw [Option.any_some, hx]
        exact ih v.length hlt hv rfl hsigned
    have hhead : headAt (w ++ s) = none := by
      rw [← Option.not_isSome_iff_eq_none, headAt_run_isSome hw hs, hcolon]
      simp
    have hopen : opensElement (w ++ s) = false := by
      cases hopen : opensElement (w ++ s)
      · rfl
      · have hvalid : (Spelling.atom none (.word (String.ofList w))).Valid s := by
          refine ⟨by simp, ?_, hs, hcolon⟩
          simpa using isTerm_of_opensElement hw hne hs hopen
        obtain ⟨_, _, hread, -⟩ :=
          (Spelling.atom none (.word (String.ofList w))).reads total s hvalid
        rw [Spelling.text, headText, List.nil_append, Atom.text, String.toList_ofList,
          helement] at hread
        cases hread
    rw [startsOperand_eq, skipGap_run hw hne, hsign, startsElement, hhead, hopen]
    rfl

lemma operandAt_skipGap (total : Nat) (s : List Char) :
    operandAt total (skipGap s) = operandAt total s := by
  rw [operandAt_eq, skipGap_idem, ← operandAt_eq]

lemma ReadsChain.operand {total : Nat} {s r : List Char} {joined : Joined}
    (h : ReadsChain total s joined r) : ∃ x, operandAt total s = some x := by
  obtain ⟨_, _, hc, -, -⟩ := h
  rw [conjunctsAt_eq, Option.map_eq_some_iff] at hc
  obtain ⟨x, hx, -⟩ := hc
  exact ⟨x, hx⟩

/-- Between members of a juxtaposition stands no `AND` that an operand follows. -/
lemma takesAnd_of_beside {total : Nat} {s r : List Char} {joined : Joined}
    (hchain : ReadsChain total s joined r) (hr : Ends r)
    (h : ∀ t, afterAt .and s = some t → operandAt total t = none) : takesAnd s = false := by
  cases hand : afterAt .and s with
  | none => simp [takesAnd, hand]
  | some t =>
    have hstart : startsOperand t = false := by
      rcases afterAt_eq_some hand with ⟨hs, hword⟩ | hs
      · have hcolon : colonAhead t = true := by
          cases hcolon : colonAhead t
          · have := startsOperand_reserved (.inl rfl) hword hcolon
            rw [← startsOperand_skipGap] at this
            have hstarts := hchain.starts
            rw [← startsOperand_skipGap, hs] at hstarts
            rw [startsOperand_skipGap] at this
            exact this.symm.trans hstarts
          · rfl
        exact (halts_of_colonAhead hcolon).startsOperand
      · obtain ⟨ht, hw, hword⟩ := wordRun_eq (show wordRun false t = _ from rfl)
        rw [runsOn_false] at hword
        have hread := operandAt_symbol total .and hw hword
        rw [← ht, ← hs, operandAt_skipGap] at hread
        obtain ⟨hcolon, hsettled⟩ := hchain.settled hr hread
        have hrest : colonAhead (wordRun false t).2 = false ∧
            Settled total (wordRun false t).2 := by
          have hmodifiers := modifiers_cases (show modifiers (.word (String.ofList
            (OperatorMark.and.symbol ++ (wordRun false t).1))) (wordRun false t).2 = _ from rfl)
          rcases hmodifiers with hsame | ⟨hhalts, hcolon⟩
          · rw [hsame] at hcolon hsettled
            exact ⟨hcolon, hsettled⟩
          · exact ⟨hcolon, fun _ => hhalts.startsOperand⟩
        have := settled_run hw hword hrest.1 hrest.2
        rw [← ht] at this
        exact this (h t hand)
    simp [takesAnd, hand, hstart]

lemma length_lt_of_operandAt {total : Nat} {s r : List Char} {tree : Tree}
    (h : operandAt total s = some (tree, r)) : r.length < s.length := by
  obtain ⟨⟨x, hx⟩, -, rfl⟩ := Option.map_eq_some_iff.1 h
  exact hx

lemma length_lt_of_afterAt {op : OperatorMark} {s r : List Char} (h : afterAt op s = some r) :
    r.length < s.length := by
  obtain ⟨⟨x, hx⟩, -, rfl⟩ := Option.map_eq_some_iff.1 h
  exact hx

lemma exists_and {s r : List Char} (h : afterAt .and s = some r) :
    ∃ (gap : Gap) (keyword : Bool), s = gap.chars ++ (andText keyword ++ r) ∧
      (keyword = true → atWordChar r = false) := by
  obtain ⟨gap, hgap⟩ := exists_gap_of_skipGap s
  rcases afterAt_eq_some h with ⟨hs, hword⟩ | hs
  · exact ⟨gap, true, by rw [hgap, hs]; rfl, fun _ => hword⟩
  · exact ⟨gap, false, by rw [hgap, hs]; rfl, by simp⟩

lemma exists_or {total : Nat} {s r : List Char} (h : afterAt .or s = some r)
    (hnone : operandAt total s = none) :
    ∃ gap : Gap, s = gap.chars ++ 'O' :: 'R' :: r ∧ atWordChar r = false := by
  obtain ⟨gap, hgap⟩ := exists_gap_of_skipGap s
  rcases afterAt_eq_some h with ⟨hs, hword⟩ | hs
  · exact ⟨gap, by rw [hgap, hs]; rfl, hword⟩
  · have := operandAt_symbol_isSome total .or r
    rw [← hs, operandAt_skipGap, hnone] at this
    cases this

/-- A spelled operand, a link and a spelled chain make a chain. -/
lemma exists_linked {total : Nat} {s r r₁ : List Char} {gap : Gap} {p : Spelling .operand}
    {q : Spelling .chain} (link : Link) (hs : s = gap.chars ++ (p.text ++ r₁)) (hp : p.Valid r₁)
    (hr : r₁ = link.text ++ (q.text ++ r)) (hlink : link.Valid (q.text ++ r)) (hq : q.Valid r) :
    ∃ (gap : Gap) (c : Spelling .chain), s = gap.chars ++ (c.text ++ r) ∧
      c.joined total r = link.attach (p.tree total r₁) (q.joined total r) ∧ c.Valid r := by
  subst hr
  refine ⟨gap, .linked p link q, ?_, rfl, hp, hlink, hq⟩
  rw [hs]
  simp [Spelling.text]

theorem chainRecovers (total : Nat) (s : List Char) : ChainRecovers total s := by
  induction hn : s.length using Nat.strongRecOn generalizing s with
  | ind n ih =>
    subst hn
    intro joined r h hr
    have hshorter : ∀ t : List Char, t.length < s.length → ChainRecovers total t := fun t ht =>
      ih t.length ht t rfl
    obtain ⟨⟨tree, r₁⟩, hfirst⟩ := h.operand
    obtain ⟨hcolon, -⟩ := h.settled hr hfirst
    have hlen := length_lt_of_operandAt hfirst
    obtain ⟨gap, p, hs, rfl, hp⟩ := exists_operand hshorter hfirst hcolon
    rcases h.split hfirst with ⟨t, other, ht, hother, rfl⟩ | ⟨other, hand, hother, rfl⟩ |
      ⟨t, other, hnone, ht, hother, rfl⟩ | ⟨rfl, rfl⟩
    · obtain ⟨after, q, rfl, rfl, hq⟩ :=
        hshorter t (Nat.lt_trans (length_lt_of_afterAt ht) hlen) other r hother hr
      obtain ⟨before, keyword, hr₁, hword⟩ := exists_and ht
      exact exists_linked (.and before keyword after) hs hp (by rw [hr₁]; simp [Link.text]) hword hq
    · obtain ⟨between, q, hr₁, rfl, hq⟩ := hshorter r₁ hlen other r hother hr
      have htakes := takesAnd_of_beside hother hr hand
      rw [takesAnd, hr₁, afterAt_append between.blank] at htakes
      exact exists_linked (.beside between) hs hp hr₁ htakes hq
    · obtain ⟨after, q, rfl, rfl, hq⟩ :=
        hshorter t (Nat.lt_trans (length_lt_of_afterAt ht) hlen) other r hother hr
      obtain ⟨before, hr₁, hword⟩ := exists_or ht hnone
      exact exists_linked (.or before after) hs hp (by rw [hr₁]; simp [Link.text]) hword hq
    · exact ⟨gap, .single p, hs, p.joined_operand total r₁, hp⟩

/-- Every text that the grammar takes has a valid spelling, and its tree is the spelled one. -/
theorem exists_spelling {s : List Char} {tree : Tree} (h : Tree.ofChars? s = some tree) :
    ∃ (before after : Gap) (p : Spelling .chain), s = before.chars ++ (p.text ++ after.chars) ∧
      p.Valid after.chars ∧ p.tree (byteLength s) after.chars = tree := by
  rw [ofChars?_eq] at h
  obtain ⟨⟨trees, r⟩, hread, h⟩ := Option.bind_eq_some_iff.1 h
  dsimp only at h
  split at h
  · rename_i hend
    cases h
    obtain ⟨joined, hchain, rfl⟩ := readsChain_of_disjunctsAt hread
    obtain ⟨before, p, hs, rfl, hp⟩ := chainRecovers _ _ joined r hchain (.inl hend)
    obtain ⟨after, hafter⟩ := exists_gap_of_skipGap r
    rw [hend, List.append_nil] at hafter
    subst hafter
    exact ⟨before, after, p, hs, hp, rfl⟩
  · cases h

end SkyResolver.Query
