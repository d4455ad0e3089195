import SkyResolver.Proofs.Query.Alternatives
import SkyResolver.Proofs.Query.Composition
import SkyResolver.Proofs.Query.NormalForm

/-! Two queries with an operator between them. `OR` makes a disjunction of the alternatives of both.
The symbol `||` is made of characters of words, and behind an operand a word is tried before an
operator: so it is a word of its own between the last alternative of the one and the first
alternative of the other. -/
namespace SkyResolver.Query
open SkyResolver.Text

/-! ### Operands of trees -/

/-- What a tree joins by a connective; any other tree is the only operand. -/
def Tree.operands (op : Connective) : Tree → List Tree
  | .operation op' operands => if op' = op then operands else [.operation op' operands]
  | tree => [tree]

lemma Tree.operands_of_tight {op : Connective} {tree : Tree} (h : op.tightness < tree.tightness) :
    tree.operands op = [tree] := by
  cases tree with
  | operation op' operands =>
    refine if_neg ?_
    rintro rfl
    exact lt_irrefl _ h
  | _ => rfl

lemma operands_ofOperands {op : Connective} {trees : List Tree}
    (h : ∀ tree ∈ trees, op.tightness < tree.tightness) :
    (Tree.ofOperands op trees).operands op = trees := by
  match trees with
  | [] => exact if_pos rfl
  | [tree] => exact Tree.operands_of_tight (h tree (by simp))
  | _ :: _ :: _ => exact if_pos rfl

lemma operands_ofOperands_word (op : Connective) (trees : List Tree) (text : String) :
    (Tree.ofOperands op (trees ++ [.word text])).operands op = trees ++ [.word text] := by
  cases trees with
  | nil => rfl
  | cons tree rest => cases rest <;> exact if_pos rfl

lemma ofOperands_of_two_le {op : Connective} {trees : List Tree} (h : 2 ≤ trees.length) :
    Tree.ofOperands op trees = .operation op trees := by
  match trees with
  | _ :: _ :: _ => rfl

lemma Tree.tightness_withoutSpans (tree : Tree) : tree.withoutSpans.tightness = tree.tightness := by
  cases tree <;> rfl

/-! ### Operands of spellings -/

/-- The operands of a spelling, wherever it stands. -/
def Spelling.form {k : Rank} (p : Spelling k) : Joined := (p.joined 0 []).map Tree.withoutSpans

lemma Joined.juxtaposition_map (joined : Joined) :
    (joined.map Tree.withoutSpans).juxtaposition = joined.juxtaposition.map Tree.withoutSpans := by
  simp [Joined.juxtaposition, Joined.map, ofOperands_map withoutSpans_operation]

lemma Joined.alternatives_map (joined : Joined) :
    (joined.map Tree.withoutSpans).alternatives = joined.alternatives.map Tree.withoutSpans := by
  rw [Joined.alternatives, Joined.juxtaposition_map, ← ofOperands_map withoutSpans_operation]
  rfl

section Form
variable {k : Rank}

lemma Spelling.shape_eq (p : Spelling k) : p.shape = p.form.tree :=
  Joined.tree_map withoutSpans_operation _

lemma Spelling.form_single (operand : Spelling .operand) :
    (Spelling.single operand).form = .single operand.shape :=
  congrArg (Joined.map Tree.withoutSpans) (operand.joined_operand 0 [])

lemma Spelling.form_linked (first : Spelling .operand) (link : Link) (rest : Spelling .chain) :
    (Spelling.linked first link rest).form = link.attach first.shape rest.form := by
  rw [Spelling.form, Spelling.joined, Link.attach_map withoutSpans_operation]
  exact congrArg (link.attach · rest.form) (first.withoutSpans_tree _ _)

lemma Spelling.tight_juxtaposition (p : Spelling k) :
    ∀ tree ∈ p.form.juxtaposition, Connective.implicit.tightness < tree.tightness := by
  rw [Spelling.form, Joined.juxtaposition_map, List.forall_mem_map]
  intro tree hmem
  rw [tree.tightness_withoutSpans]
  exact ((p.stands 0 []).2.juxtaposition tree hmem).tight

lemma Spelling.tight_alternatives (p : Spelling k) :
    ∀ tree ∈ p.form.alternatives, Connective.or.tightness < tree.tightness := by
  rw [Spelling.form, Joined.alternatives_map, List.forall_mem_map]
  intro tree hmem
  rw [tree.tightness_withoutSpans]
  exact ((p.stands 0 []).2.alternatives tree hmem).tight

lemma Spelling.operands_shape (p : Spelling k) : p.shape.operands .or = p.form.alternatives := by
  rw [p.shape_eq]
  exact operands_ofOperands p.tight_alternatives

end Form

/-! ### Chains one after another -/

/-- The alternatives of a chain behind others: its first juxtaposition goes on where the last one of
the others ends. -/
def Joined.behind (joined : Joined) : List Tree → List Tree
  | [] => joined.alternatives
  | [last] =>
    Tree.ofOperands .implicit (last.operands .implicit ++ joined.juxtaposition) :: joined.disjuncts
  | tree :: tree' :: trees => tree :: joined.behind (tree' :: trees)

/-- The operands of two chains side by side. -/
def Joined.beside (joined next : Joined) : Joined :=
  match joined.disjuncts with
  | [] => ⟨joined.conjuncts, joined.members ++ next.juxtaposition, next.disjuncts⟩
  | tree :: trees => ⟨joined.conjuncts, joined.members, next.behind (tree :: trees)⟩

section Beside
variable {joined : Joined} (next : Joined)

lemma Joined.behind_append (init : List Tree) (last : Tree) : next.behind (init ++ [last]) =
    init ++ Tree.ofOperands .implicit (last.operands .implicit ++ next.juxtaposition) ::
      next.disjuncts := by
  induction init with
  | nil => rfl
  | cons tree init ih => cases init <;> exact congrArg (tree :: ·) ih

variable (h : ∀ tree ∈ joined.juxtaposition, Connective.implicit.tightness < tree.tightness)
include h

lemma Joined.alternatives_beside :
    (joined.beside next).alternatives = next.behind joined.alternatives := by
  obtain ⟨conjuncts, members, disjuncts⟩ := joined
  cases disjuncts with
  | nil =>
    rw [Joined.alternatives, Joined.alternatives, Joined.behind, operands_ofOperands h]
    rfl
  | cons => rfl

lemma Link.attach_beside (link : Link) (tree : Tree) :
    (link.attach tree joined).beside next = link.attach tree (joined.beside next) := by
  cases link with
  | or before after => exact congrArg (Joined.mk [tree] []) (Joined.alternatives_beside next h).symm
  | _ =>
    obtain ⟨conjuncts, members, disjuncts⟩ := joined
    cases disjuncts <;> rfl

end Beside

lemma Spelling.form_followed_beside (gap : Gap) (next : Spelling .chain) :
    ∀ p : Spelling .chain, (p.followed (.beside gap) next).form = p.form.beside next.form
  | .single operand => by
    rw [Spelling.followed, Spelling.form_linked, Spelling.form_single]
    rfl
  | .linked first link rest => by
    rw [Spelling.followed, Spelling.form_linked, form_followed_beside gap next rest,
      Spelling.form_linked, Link.attach_beside next.form rest.tight_juxtaposition]

lemma Spelling.form_followed_or (before after : Gap) (next : Spelling .chain) :
    ∀ p : Spelling .chain, (p.followed (.or before after) next).form =
      ⟨p.form.conjuncts, p.form.members, p.form.disjuncts ++ next.form.alternatives⟩
  | .single operand => by
    rw [Spelling.followed, Spelling.form_linked, Spelling.form_single]
    rfl
  | .linked first link rest => by
    rw [Spelling.followed, Spelling.form_linked, form_followed_or before after next rest,
      Spelling.form_linked]
    cases link <;> rfl

/-! ### Texts that start an operand of their own -/

/-- The text prolongs no lexeme that it stands behind, but it may start an operand. -/
structure Parted (r : List Char) : Prop where
  word : atWordChar r = false
  colon : colonAhead r = false
  digit : digitAhead r = false
  point : pointAhead r = false

lemma Parted.beside (gap : Gap) (hgap : gap.chars ≠ []) {r : List Char}
    (hr : startsOperand r = true) :
    Parted ((Link.beside gap).text ++ r) := by
  obtain ⟨hdigit, hpoint⟩ := not_digitAhead_gap gap.blank hgap r
  exact ⟨atWordChar_of_gap gap.blank hgap, Link.colonAhead _ hr, hdigit, hpoint⟩

/-- The chain ends in a word that stands beside another operand. Such a word may be read as an `AND`
as soon as something follows. -/
inductive Spelling.EndsIn (text : String) : Spelling .chain → Prop where
  | beside (first : Spelling .operand) (gap : Gap) :
      EndsIn text (.linked first (.beside gap) (.single (.bare (.atom none (.word text)))))
  | linked (first : Spelling .operand) (link : Link) {rest : Spelling .chain}
      (hrest : EndsIn text rest) :
      EndsIn text (.linked first link rest)

/-- True of what starts with the symbol for `AND`. -/
def StartsWithSymbol (text : String) : Prop := OperatorMark.and.symbol <+: text.toList

section Parted
variable {r s : List Char} (hs : Parted s)

/-- The first characters of a spelling decide whether a word starts there. -/
lemma Spelling.Valid.atWordChar {k : Rank} {p : Spelling k} (h : p.Valid r) (t : List Char) :
    atWordChar (p.text ++ t) = Query.atWordChar p.text := by
  induction p generalizing r t with
  | atom head value =>
    cases head with
    | some head =>
      rw [Spelling.text, headText, List.append_assoc, head.atWordChar (h.1 head rfl),
        head.atWordChar (h.1 head rfl)]
    | none =>
      cases value with
      | word text => exact atWordChar_append h.2.1.run h.2.1.ne_nil
      | phrase text =>
        obtain ⟨u, hu⟩ := IsPhrase.exists_cons h.2
        rw [Spelling.text, Atom.text, hu]
        rfl
      | range includeLow => cases includeLow <;> rfl
  | group head before inner after =>
    cases head with
    | some head =>
      rw [Spelling.text, headText, List.append_assoc, head.atWordChar (h.1 head rfl),
        head.atWordChar (h.1 head rfl)]
    | none => rfl
  | modified operand gap modifier number ih => rw [Spelling.text, List.append_assoc, ih h.1, ih h.1]
  | bare element ih => exact ih h t
  | prefixed op => cases op <;> rfl
  | single operand ih => exact ih h t
  | linked first link rest ih => rw [Spelling.text, List.append_assoc, ih h.1, ih h.1]

/-- In front of the same link and chain, an operand ends where it ended. -/
lemma Spelling.Valid.calmer_linked {link : Link} {rest : Spelling .chain}
    (h : link.Valid (rest.text ++ r) ∧ rest.Valid r)
    (h' : link.Valid (rest.text ++ s) ∧ rest.Valid s) :
    Calmer (link.text ++ (rest.text ++ r)) (link.text ++ (rest.text ++ s)) :=
  Link.calmer h.1 h'.1 (.inl rfl) h.2.front.2 h'.2.front.2 fun hword => by
  rwa [h'.2.atWordChar, ← h.2.atWordChar r]

include hs

lemma Atom.Valid.parted {colons : Bool} {atom : Atom} (h : atom.Valid colons r) :
    atom.Valid colons s := by
  cases atom with
  | word text => exact ⟨h.1, hs.word, hs.colon⟩
  | phrase text => exact h
  | range => exact h.behind_range

lemma Spelling.Valid.parted_element {p : Spelling .element} (h : p.Valid r) : p.Valid s := by
  cases p with
  | atom head value => exact ⟨h.1, h.2.parted hs⟩
  | group head before inner after => exact ⟨h.1, h.2.inert (.closing after s)⟩
  | modified operand gap modifier number =>
    have hdigit : digitAhead s = true → digitAhead r = true := by simp [hs.digit]
    have hpoint : pointAhead s = true → pointAhead r = true := by simp [hs.point]
    exact ⟨(Spelling.Revises.refl operand).valid h.1 (.of_halt gap modifier.mark_halts _ _)
      fun _ => .of_halt gap modifier.mark_halts _ _, optionalNumber_congr h.2 hdigit hpoint⟩

lemma Spelling.Valid.parted : ∀ {p : Spelling .operand}, p.Valid r → p.Valid s
  | .bare _, h => h.parted_element hs
  | .prefixed _ gap _, h => by
    refine ⟨fun hop => gap.atWordChar (fun hchar => ?_) (h.1 hop), Spelling.Valid.parted h.2⟩
    rwa [h.2.atWordChar] at hchar ⊢

/-- Unless it is a word that starts with the symbol, an operand is an `AND` no matter what follows,
or not. -/
lemma Spelling.Valid.takesAnd_parted {p : Spelling .operand} (h : p.Valid r)
    (hword : ∀ text, p = .bare (.atom none (.word text)) → ¬ StartsWithSymbol text)
    (htakes : takesAnd (p.text ++ r) = false) : takesAnd (p.text ++ s) = false := by
  cases p with
  | prefixed op => cases op <;> rfl
  | bare element =>
    cases element with
    | group head before inner after =>
      cases head with
      | some head =>
        rw [Spelling.text, Spelling.text, headText, List.append_assoc]
        exact head.takesAnd (h.1 head rfl) _
      | none => rfl
    | modified operand gap modifier number =>
      have hs' := (Spelling.Valid.parted hs h).1
      have hfront := (Spelling.Revises.refl operand).front h.1 hs'
        (.of_halt gap modifier.mark_halts _ _)
      simp only [Spelling.text, List.append_assoc, List.cons_append] at htakes ⊢
      exact hfront.2 htakes
    | atom head value =>
      cases head with
      | some head =>
        rw [Spelling.text, Spelling.text, headText, List.append_assoc]
        exact head.takesAnd (h.1 head rfl) _
      | none =>
        cases value with
        | phrase text =>
          obtain ⟨u, hu⟩ := IsPhrase.exists_cons h.2
          rw [Spelling.text, Spelling.text, Atom.text, hu]
          rfl
        | range includeLow => cases includeLow <;> rfl
        | word text =>
          refine Bool.eq_false_iff.2 fun htakes => hword text rfl ?_
          obtain ⟨v, hv, -⟩ := (h.2.1.takesAnd hs.word).1 htakes
          exact ⟨v, hv.symm⟩

/-- What follows a chain may start an operand, as long as the chain does not end in a word that
could be an `AND`. -/
lemma Spelling.Valid.parted_chain :
    ∀ {p : Spelling .chain}, (∀ text, p.EndsIn text → ¬ StartsWithSymbol text) →
    p.Valid r → p.Valid s
  | .single _, _, h => Spelling.Valid.parted hs h
  | .linked first link rest, hends, h => by
    have hrest : rest.Valid s :=
      h.2.2.parted_chain fun text hrest => hends text (.linked first link hrest)
    have hword : Query.atWordChar (rest.text ++ r) = false →
        Query.atWordChar (rest.text ++ s) = false := by
      rw [hrest.atWordChar, hrest.atWordChar]
      exact id
    have hlink : link.Valid (rest.text ++ s) := by
      cases link with
      | and before keyword after => exact fun hkeyword => after.atWordChar hword (h.2.1 hkeyword)
      | or before after => exact after.atWordChar hword h.2.1
      | beside gap =>
        cases rest with
        | single operand =>
          refine Spelling.Valid.takesAnd_parted hs h.2.2 (fun text htext => ?_) h.2.1
          rw [htext] at hends
          exact hends text (.beside first gap)
        | linked first' link' rest' =>
          have hfront := (Spelling.Revises.refl first').front h.2.2.1 hrest.1
            (Spelling.Valid.calmer_linked h.2.2.2 hrest.2)
          have htakes : takesAnd ((Spelling.linked first' link' rest').text ++ r) = false := h.2.1
          simp only [Spelling.text, List.append_assoc] at htakes
          simpa only [Link.Valid, Spelling.text, List.append_assoc] using hfront.2 htakes
    exact ⟨(Spelling.Revises.refl first).valid h.1 (Spelling.Valid.calmer_linked h.2 ⟨hlink, hrest⟩)
      fun _ => Link.tamer (.inl rfl) fun _ => Spelling.Tame.refl rest r s h.2.2 hrest, hlink, hrest⟩

end Parted

/-- The last alternative of a chain that ends in a word beside an operand is a juxtaposition that
ends in the word. -/
lemma Spelling.EndsIn.alternatives {p : Spelling .chain} {text : String} (h : p.EndsIn text) :
    ∃ init trees, p.form.alternatives =
      init ++ [Tree.ofOperands .implicit (trees ++ [.word text])] := by
  obtain ⟨q, hq⟩ : ∃ q : Spelling .chain, p.form = q.form.beside (.single (.word text)) := by
    induction h with
    | beside first gap =>
      refine ⟨.single first, ?_⟩
      rw [Spelling.form_linked, Spelling.form_single, Spelling.form_single]
      rfl
    | linked first link hrest ih =>
      obtain ⟨q, hq⟩ := ih
      exact ⟨.linked first link q, by
        rw [Spelling.form_linked, hq, Spelling.form_linked,
          Link.attach_beside _ q.tight_juxtaposition]⟩
  obtain ⟨init, last, hlast⟩ : ∃ init last, q.form.alternatives = init ++ [last] :=
    ⟨_, _, (List.dropLast_append_getLast (List.cons_ne_nil _ _)).symm⟩
  refine ⟨init, last.operands .implicit, ?_⟩
  rw [hq, Joined.alternatives_beside _ q.tight_juxtaposition, hlast, Joined.behind_append]
  rfl

/-! ### Queries with an operator between them -/

/-- A chain with the symbol for `OR` in front, as a word. -/
def Spelling.behindBars (gap : Gap) (chain : Spelling .chain) : Spelling .chain :=
  .linked (.bare (.atom none (.word "||"))) (.beside gap) chain

lemma Spelling.behindBars_valid (gap : Gap) {chain : Spelling .chain} {r : List Char}
    (hgap : gap.chars ≠ []) (hchain : chain.Valid r) (htakes : takesAnd (chain.text ++ r) = false) :
    (chain.behindBars gap).Valid r :=
  ⟨⟨by simp, by decide, atWordChar_of_gap gap.blank hgap, Link.colonAhead _ hchain.front.2⟩,
    htakes, hchain⟩

lemma Spelling.form_behindBars (gap : Gap) (chain : Spelling .chain) : (chain.behindBars gap).form =
    ⟨[.word "||"], chain.form.juxtaposition, chain.form.disjuncts⟩ := Spelling.form_linked _ _ _

namespace Layout
variable {s t : List Char}

/-- The reading of two texts with `||` between them. -/
def bars (first : Layout s) (second : Layout t)
    (hfirst : ∀ text, first.chain.EndsIn text → ¬ StartsWithSymbol text)
    (hsecond : takesAnd t = false) :
    Layout (s ++ (" || ".toList ++ t)) where
  before := first.before
  chain := first.chain.followed (.beside (first.after.append .one))
    (second.chain.behindBars (Gap.one.append second.before))
  after := second.after
  text_eq := by
    simp [first.text_eq, second.text_eq, text_followed, Spelling.behindBars, Spelling.text,
      Link.text, Gap.append, Gap.one, headText, Atom.text]
  valid := by
    have hnext : takesAnd (second.chain.text ++ []) = false := by
      have hend := second.valid.inert (.gap second.after)
      refine ((Spelling.Revises.refl second.chain).front hend second.valid
        (Inert.nil.calmer _)).2 ?_
      rwa [second.text_eq, takesAnd, afterAt_append second.before.blank] at hsecond
    have hlast := Spelling.behindBars_valid (Gap.one.append second.before)
      (by simp [Gap.append, Gap.one])
      second.valid hnext
    have hlink : (Link.beside (first.after.append .one)).Valid
        ((second.chain.behindBars (Gap.one.append second.before)).text ++ []) := rfl
    exact valid_followed hlink hlast first.chain (first.valid.parted_chain
      (.beside _ (by simp [Gap.append, Gap.one]) hlast.front.2) hfirst)

lemma parse (layout : Layout s) {query : String} (hquery : query.toList = s)
    (hbalanced : parenthesesMatch query = true) :
    ∃ tree, Tree.parse query = .ok tree ∧ tree.withoutSpans = layout.chain.shape := by
  subst hquery
  exact ⟨_, parse_eq_ok.2 ⟨hbalanced, layout.ofChars?_eq⟩, layout.chain.withoutSpans_tree _ _⟩

end Layout

section Between
variable {a b query : String} {first second tree : Tree}

lemma exists_layout (h : Tree.parse query = .ok tree) : parenthesesMatch query = true ∧
    ∃ layout : Layout query.toList, layout.tree = tree ∧
      tree.withoutSpans.operands .or = layout.chain.form.alternatives := by
  obtain ⟨hbalanced, hchars⟩ := parse_eq_ok.1 h
  obtain ⟨layout, rfl⟩ := Layout.exists_of_ofChars? hchars
  refine ⟨hbalanced, layout, rfl, ?_⟩
  rw [Layout.tree, Spelling.withoutSpans_tree, Spelling.operands_shape]

/-- A tree that is written out has the same marks as the query. -/
theorem parse_filter_toText {f : Char → Bool} (hf : IsMark f) (h : Tree.parse query = .ok tree) :
    tree.toText.toList.filter f = query.toList.filter f := by
  obtain ⟨-, layout, rfl, -⟩ := exists_layout h
  rw [Tree.toText, String.toList_ofList, Layout.tree, ← Spelling.text_plain, hf.filter_plain]
  conv_rhs => rw [layout.text_eq]
  rw [List.filter_append, List.filter_append, hf.filter_gap, hf.filter_gap, List.nil_append,
    List.append_nil]

lemma parenthesesMatch_between (ha : parenthesesMatch a = true) (hb : parenthesesMatch b = true)
    (op : String) (hop : closesAll 0 op.toList = true) :
    parenthesesMatch (a ++ op ++ b) = true := by
  rw [parenthesesMatch, String.toList_append, String.toList_append, List.append_assoc]
  exact closesAll_append ha (closesAll_append hop hb)

/-- With `OR` between them, two queries are a disjunction of the alternatives of both. With `||`
they never are: the symbol is a word between the last alternative of the first query and the first
one of the second, unless one of these has a word there that becomes an `AND` next to another
operand. -/
theorem parse_or_or_bars (ha : Tree.parse a = .ok first) (hb : Tree.parse b = .ok second) :
    (∃ tree, Tree.parse (a ++ " OR " ++ b) = .ok tree ∧ tree.withoutSpans =
      .operation .or (first.withoutSpans.operands .or ++ second.withoutSpans.operands .or)) ∧
    (∀ tree, Tree.parse (a ++ " || " ++ b) = .ok tree → tree.withoutSpans ≠
      .operation .or (first.withoutSpans.operands .or ++ second.withoutSpans.operands .or)) ∧
    ∀ init last head tail, first.withoutSpans.operands .or = init ++ [last] →
      second.withoutSpans.operands .or = head :: tail →
      (∀ text, (last.operands .implicit).getLast? = some (.word text) → ¬ StartsWithSymbol text) →
      takesAnd b.toList = false →
      ∃ tree, Tree.parse (a ++ " || " ++ b) = .ok tree ∧ tree.withoutSpans = Tree.ofOperands .or
        (init ++ .operation .implicit (last.operands .implicit ++ .word "||" ::
          head.operands .implicit) :: tail) := by
  obtain ⟨hbalanced, left, rfl, hleft⟩ := exists_layout ha
  obtain ⟨hbalanced', right, rfl, hright⟩ := exists_layout hb
  rw [hleft, hright]
  have hunion : ∃ tree, Tree.parse (a ++ " OR " ++ b) = .ok tree ∧ tree.withoutSpans =
      .operation .or (left.chain.form.alternatives ++ right.chain.form.alternatives) := by
    obtain ⟨tree, htree, hshape⟩ := (left.or right).parse (by simp)
      (parenthesesMatch_between hbalanced hbalanced' " OR " (by decide))
    refine ⟨tree, htree, hshape.trans ?_⟩
    rw [Layout.or, Spelling.shape_eq, Spelling.form_followed_or]
    exact ofOperands_of_two_le (by simp only [Joined.alternatives,
      List.length_cons, List.length_append]; omega)
  refine ⟨hunion, fun tree htree hsame =>
    ?_, fun init last head tail hinit htail hends htakes => ?_⟩
  · -- The written form keeps every bar of a query, so it tells the two queries apart.
    obtain ⟨tree', htree', hsame'⟩ := hunion
    have hbar : IsMark (· == '|') :=
      ⟨fun c hc => beq_eq_false_iff_ne.2 (by rintro rfl; cases hc), by simp⟩
    have hmarks := parse_filter_toText hbar htree
    rw [toText_congr (hsame.trans hsame'.symm), parse_filter_toText hbar htree'] at hmarks
    have hbars : " OR ".toList.filter (· == '|') = " || ".toList.filter (· == '|') := by
      simpa only [String.toList_append, List.filter_append,
        List.append_left_inj, List.append_right_inj] using hmarks
    exact absurd hbars (by decide)
  · have hfirst : ∀ text, left.chain.EndsIn text → ¬ StartsWithSymbol text := by
      intro text h
      obtain ⟨init', trees, hlast⟩ := h.alternatives
      obtain ⟨-, hlast⟩ := List.append_inj' (hinit.symm.trans hlast) rfl
      refine hends text ?_
      rw [List.singleton_inj.1 hlast, operands_ofOperands_word, List.getLast?_concat]
    obtain ⟨tree, htree, hshape⟩ := (left.bars right hfirst htakes).parse (by simp)
      (parenthesesMatch_between hbalanced hbalanced' " || " (by decide))
    obtain ⟨rfl, rfl⟩ := List.cons_eq_cons.1 htail
    refine ⟨tree, htree, hshape.trans ?_⟩
    rw [Layout.bars, Spelling.shape_eq, Spelling.form_followed_beside, Joined.tree,
      Joined.alternatives_beside _ left.chain.tight_juxtaposition, hinit, Joined.behind_append,
      Spelling.form_behindBars]
    have hbeside : Tree.ofOperands .implicit
        (last.operands .implicit ++ .word "||" :: right.chain.form.juxtaposition) =
        .operation .implicit (last.operands .implicit ++ .word "||" ::
          right.chain.form.juxtaposition) :=
      ofOperands_of_two_le (by simp only [Joined.juxtaposition,
        List.length_cons, List.length_append]; omega)
    rw [operands_ofOperands right.chain.tight_juxtaposition, ← hbeside]
    rfl

theorem parse_or_or_bars_of_alternatives : Tree.parse "a OR b && c" = .ok (.operation .or
      [.word "a", .operation .and [.word "b", .word "c"]]) ∧
    Tree.parse "d e" = .ok (.operation .implicit [.word "d", .word "e"]) ∧
    ∃ tree, Tree.parse "a OR b && c || d e" = .ok tree ∧
    tree.withoutSpans = .operation .or [.word "a",
      .operation .implicit [.operation .and [.word "b", .word "c"], .word "||", .word "d",
        .word "e"]] := by
  have ha : Tree.parse "a OR b && c" =
      .ok (.operation .or [.word "a", .operation .and [.word "b", .word "c"]]) :=
    Spelling.parse .empty .empty
      (.linked (.bare (.atom none (.word "a"))) (.or .one .one)
        (.linked (.bare (.atom none (.word "b"))) (.and .one false .one)
          (.single (.bare (.atom none (.word "c"))))))
      rfl (by decide) rfl
  have hb : Tree.parse "d e" = .ok (.operation .implicit [.word "d", .word "e"]) :=
    Spelling.parse .empty .empty
      (.linked (.bare (.atom none (.word "d"))) (.beside .one)
        (.single (.bare (.atom none (.word "e"))))) rfl
      (by decide) rfl
  refine ⟨ha, hb, ?_⟩
  exact (parse_or_or_bars ha hb).2.2 [.word "a"] (.operation .and [.word "b", .word "c"])
    (.operation .implicit [.word "d", .word "e"]) [] rfl rfl (fun text htext => by cases htext) rfl

/-- The symbol for `OR` between two words is a third word. -/
theorem parse_of_bars : Tree.parse "a" = .ok (.word "a") ∧ Tree.parse "b" = .ok (.word "b") ∧
    Tree.parse "a || b" = .ok (.operation .implicit [.word "a", .word "||", .word "b"]) ∧
    Tree.parse "a OR b" = .ok (.operation .or [.word "a", .word "b"]) :=
  ⟨Spelling.parse .empty .empty (.single (.bare (.atom none (.word "a")))) rfl (by decide) rfl,
    Spelling.parse .empty .empty (.single (.bare (.atom none (.word "b")))) rfl (by decide) rfl,
    Spelling.parse .empty .empty (.linked (.bare (.atom none (.word "a"))) (.beside .one)
      (.linked (.bare (.atom none (.word "||"))) (.beside .one)
        (.single (.bare (.atom none (.word "b"))))))
      rfl (by decide) rfl,
    Spelling.parse .empty .empty (.linked (.bare (.atom none (.word "a"))) (.or .one .one)
      (.single (.bare (.atom none (.word "b"))))) rfl (by decide) rfl⟩

end Between

end SkyResolver.Query
