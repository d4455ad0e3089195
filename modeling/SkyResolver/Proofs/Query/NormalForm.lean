import SkyResolver.Proofs.Query.WrittenForm

/-! The normal form of parsed trees. An operation has at least two operands, and they bind tighter
than it does; what stands behind a prefix or in front of a modifier is no operation; fields and
ranges hold only what may stand in them. All of this is in the ranks of spellings: whatever the
lexemes are, a spelling has a normal tree. -/
namespace SkyResolver.Query
open SkyResolver.Text

/-! ### Normal trees -/

mutual

/-- The subtrees of a tree, the tree itself first. -/
def Tree.subtrees : Tree → List Tree
  | .word text => [.word text]
  | .phrase text => [.phrase text]
  | .field name value span => .field name value span :: value.subtrees
  | .group inner => .group inner :: inner.subtrees
  | .fieldGroup inner => .fieldGroup inner :: inner.subtrees
  | .operation op operands => .operation op operands :: Tree.subtreesOfAll operands
  | .prefixed op operand => .prefixed op operand :: operand.subtrees
  | .boost operand factor => .boost operand factor :: operand.subtrees
  | .approx operand degree => .approx operand degree :: operand.subtrees
  | .range low high includeLow includeHigh =>
    .range low high includeLow includeHigh :: (low.subtrees ++ high.subtrees)

/-- The subtrees of several trees, in order. -/
def Tree.subtreesOfAll : List Tree → List Tree
  | [] => []
  | tree :: trees => tree.subtrees ++ Tree.subtreesOfAll trees

end

/-- How tightly a connective binds. -/
def Connective.tightness : Connective → Nat
  | .or => 0
  | .implicit => 1
  | .and => 2

/-- How tightly the outermost node of a tree binds: connectives, then prefixes, then modifiers, and
last what has an end of its own. -/
def Tree.tightness : Tree → Nat
  | .operation op _ => op.tightness
  | .prefixed _ _ => 3
  | .boost _ _ => 4
  | .approx _ _ => 4
  | _ => 5

def Tree.isFieldGroup : Tree → Bool
  | .fieldGroup _ => true
  | _ => false

/-- True for what the colon of a field may stand in front of. -/
def Tree.isFieldValue : Tree → Bool
  | .word _ | .phrase _ | .fieldGroup _ | .range _ _ _ _ => true
  | _ => false

def Tree.isBound : Tree → Bool
  | .word _ | .phrase _ => true
  | _ => false

/-- A tree that binds tightly enough for its place, which is none for the parenthesised value of a
field. -/
structure Tree.Fits (least : Nat) (tree : Tree) : Prop where
  tight : least ≤ tree.tightness
  free : tree.isFieldGroup = false

/-- What the normal form demands of the children of a node. -/
def Tree.WellJoined : Tree → Prop
  | .word _ => True
  | .phrase _ => True
  | .field _ value _ => value.isFieldValue = true
  | .group inner => inner.Fits 0
  | .fieldGroup inner => inner.Fits 0
  | .operation op operands =>
    2 ≤ operands.length ∧ ∀ operand ∈ operands, operand.Fits (op.tightness + 1)
  | .prefixed _ operand => operand.Fits 3
  | .boost operand _ => operand.Fits 4
  | .approx operand _ => operand.Fits 4
  | .range low high _ _ => low.isBound = true ∧ high.isBound = true

/-- A tree in normal form whose outermost node binds tightly enough for its place. -/
structure Tree.Stands (least : Nat) (tree : Tree) : Prop extends tree.Fits least where
  joined : ∀ node ∈ tree.subtrees, node.WellJoined

section Stands
variable {least : Nat} {tree : Tree}

lemma Tree.Stands.mono {most : Nat} (h : tree.Stands most) (hle : least ≤ most) :
    tree.Stands least :=
  ⟨⟨hle.trans h.tight, h.free⟩, h.joined⟩

lemma Tree.subtreesOfAll_eq (trees : List Tree) :
    Tree.subtreesOfAll trees = trees.flatMap Tree.subtrees := by
  induction trees with
  | nil => rfl
  | cons tree trees ih => rw [Tree.subtreesOfAll, ih, List.flatMap_cons]

lemma Bound.stands (bound : Bound) : bound.tree.isBound = true ∧
    ∀ node ∈ bound.tree.subtrees, node.WellJoined := by
  cases bound <;> exact ⟨rfl, List.forall_mem_singleton.2 trivial⟩

/-- An atom stands everywhere, as the value of a field as well. -/
lemma Atom.stands (atom : Atom) : atom.tree.Stands 5 ∧ atom.tree.isFieldValue = true := by
  cases atom with
  | word text => exact ⟨⟨⟨le_rfl, rfl⟩, List.forall_mem_singleton.2 trivial⟩, rfl⟩
  | phrase text => exact ⟨⟨⟨le_rfl, rfl⟩, List.forall_mem_singleton.2 trivial⟩, rfl⟩
  | range includeLow includeHigh g₁ low g₂ g₃ high g₄ =>
    have hbounds : ∀ node ∈ low.tree.subtrees ++ high.tree.subtrees, node.WellJoined :=
      List.forall_mem_append.2 ⟨low.stands.2, high.stands.2⟩
    exact ⟨⟨⟨le_rfl, rfl⟩, List.forall_mem_cons.2 ⟨⟨low.stands.1, high.stands.1⟩, hbounds⟩⟩, rfl⟩

/-- One operand is as tight as it was, and several are as tight as their connective. -/
lemma stands_ofOperands {op : Connective} {trees : List Tree} (hne : trees ≠ [])
    (h : ∀ tree ∈ trees, tree.Stands (op.tightness + 1)) :
    (Tree.ofOperands op trees).Stands op.tightness := by
  match trees with
  | [tree] => exact (h tree (by simp)).mono (Nat.le_succ _)
  | tree :: tree' :: rest =>
    refine ⟨⟨le_rfl, rfl⟩, List.forall_mem_cons.2
      ⟨⟨by simp, fun operand hmem => (h operand hmem).toFits⟩, ?_⟩⟩
    rw [Tree.subtreesOfAll_eq]
    intro node hnode
    obtain ⟨operand, hmem, hnode⟩ := List.mem_flatMap.1 hnode
    exact (h operand hmem).joined node hnode

end Stands

/-! ### Chains -/

/-- The operands of a chain bind as tightly as what they are joined by demands. -/
structure Joined.Stands (joined : Joined) : Prop where
  conjuncts_ne_nil : joined.conjuncts ≠ []
  conjuncts : ∀ tree ∈ joined.conjuncts, tree.Stands (Connective.and.tightness + 1)
  members : ∀ tree ∈ joined.members, tree.Stands (Connective.implicit.tightness + 1)
  disjuncts : ∀ tree ∈ joined.disjuncts, tree.Stands (Connective.or.tightness + 1)

namespace Joined.Stands
variable {operand : Tree} {joined : Joined}

lemma single (h : operand.Stands 3) : (Joined.single operand).Stands :=
  ⟨List.cons_ne_nil operand [], List.forall_mem_singleton.2 h, List.forall_mem_nil _,
    List.forall_mem_nil _⟩

lemma juxtaposition (h : joined.Stands) :
    ∀ tree ∈ joined.juxtaposition, tree.Stands (Connective.implicit.tightness + 1) :=
  List.forall_mem_cons.2 ⟨stands_ofOperands h.conjuncts_ne_nil h.conjuncts, h.members⟩

lemma alternatives (h : joined.Stands) :
    ∀ tree ∈ joined.alternatives, tree.Stands (Connective.or.tightness + 1) :=
  List.forall_mem_cons.2 ⟨stands_ofOperands (List.cons_ne_nil _ _) h.juxtaposition, h.disjuncts⟩

lemma tree (h : joined.Stands) : joined.tree.Stands 0 :=
  stands_ofOperands (List.cons_ne_nil _ _) h.alternatives

lemma attach (link : Link) (hoperand : operand.Stands 3) (h : joined.Stands) :
    (link.attach operand joined).Stands := by
  have hsingle := List.forall_mem_singleton.2 hoperand
  cases link with
  | and before keyword after =>
    exact ⟨List.cons_ne_nil _ _, List.forall_mem_cons.2 ⟨hoperand, h.conjuncts⟩,
      h.members, h.disjuncts⟩
  | beside gap => exact ⟨List.cons_ne_nil _ _, hsingle, h.juxtaposition, h.disjuncts⟩
  | or before after => exact ⟨List.cons_ne_nil _ _, hsingle, List.forall_mem_nil _, h.alternatives⟩

end Joined.Stands

/-! ### Spellings -/

/-- How tightly the tree of a spelling binds at least. -/
def Rank.tightness : Rank → Nat
  | .element => 4
  | .operand => 3
  | .chain => 0

lemma stands_named (head : Option FieldHead) (span : Span) {plain value : Tree}
    (hplain : plain.Stands 4) (hfield : value.isFieldValue = true)
    (hvalue : ∀ node ∈ value.subtrees, node.WellJoined) :
    (named head span plain value).Stands 4 := by
  cases head with
  | none => exact hplain
  | some head => exact ⟨⟨Nat.le_succ 4, rfl⟩, List.forall_mem_cons.2 ⟨hfield, hvalue⟩⟩

lemma stands_apply (modifier : Modifier) (number : Option String) {operand : Tree}
    (h : operand.Stands 4) :
    (modifier.apply operand number).Stands 4 := by
  cases modifier <;> exact ⟨⟨le_rfl, rfl⟩, List.forall_mem_cons.2 ⟨h.toFits, h.joined⟩⟩

/-- Every spelling has a normal tree, and its tree binds as tightly as its rank says. -/
theorem Spelling.stands {k : Rank} (p : Spelling k) (total : Nat) (r : List Char) :
    (p.tree total r).Stands k.tightness ∧ (p.joined total r).Stands := by
  induction p generalizing r with
  | atom head value =>
    obtain ⟨hvalue, hfield⟩ := value.stands
    have htree := stands_named head (spanBefore total (headText head ++ value.text) r)
      (hvalue.mono (Nat.le_succ 4)) hfield hvalue.joined
    exact ⟨htree, .single (htree.mono (Nat.le_succ 3))⟩
  | group head before inner after ih =>
    obtain ⟨hinner, -⟩ := ih (after.chars ++ ')' :: r)
    have hgroup : (Tree.group (inner.tree total (after.chars ++ ')' :: r))).Stands 4 :=
      ⟨⟨Nat.le_succ 4, rfl⟩, List.forall_mem_cons.2 ⟨hinner.toFits, hinner.joined⟩⟩
    have hvalue : ∀ node ∈ (Tree.fieldGroup (inner.tree total (after.chars ++ ')' :: r))).subtrees,
        node.WellJoined :=
      List.forall_mem_cons.2 ⟨hinner.toFits, hinner.joined⟩
    have htree := stands_named head
      (spanBefore total (Spelling.group head before inner after).text r) hgroup rfl hvalue
    exact ⟨htree, .single (htree.mono (Nat.le_succ 3))⟩
  | modified operand gap modifier number ih =>
    obtain ⟨hoperand, -⟩ := ih (gap.chars ++ modifier.mark :: (optionalChars number ++ r))
    have htree := stands_apply modifier number hoperand
    exact ⟨htree, .single (htree.mono (Nat.le_succ 3))⟩
  | bare element ih =>
    obtain ⟨helement, hjoined⟩ := ih r
    exact ⟨helement.mono (Nat.le_succ 3), hjoined⟩
  | prefixed op gap operand ih =>
    obtain ⟨hoperand, -⟩ := ih r
    have htree : (Tree.prefixed op (operand.tree total r)).Stands 3 :=
      ⟨⟨le_rfl, rfl⟩, List.forall_mem_cons.2 ⟨hoperand.toFits, hoperand.joined⟩⟩
    exact ⟨htree, .single htree⟩
  | single operand ih =>
    obtain ⟨hoperand, hjoined⟩ := ih r
    exact ⟨hoperand.mono (Nat.zero_le 3), hjoined⟩
  | linked first link rest ihFirst ihRest =>
    obtain ⟨hfirst, -⟩ := ihFirst (link.text ++ (rest.text ++ r))
    have hattached := (ihRest r).2.attach link hfirst
    exact ⟨hattached.tree, hattached⟩

/-! ### Parsed trees -/

/-- The tree of a query is no parenthesised value of a field, and each of its nodes, with its
children, is as the normal form demands. -/
theorem parse_wellJoined {query : String} {tree : Tree} (h : Tree.parse query = .ok tree) :
    tree.isFieldGroup = false ∧ ∀ node ∈ tree.subtrees, node.WellJoined := by
  obtain ⟨-, hchars⟩ := parse_eq_ok.1 h
  obtain ⟨before, after, p, -, -, rfl⟩ := exists_spelling hchars
  obtain ⟨hstands, -⟩ := p.stands (byteLength query.toList) after.chars
  exact ⟨hstands.free, hstands.joined⟩

theorem parse_wellJoined_of_all_ranks :
    ∃ tree, Tree.parse "-a b AND c^2 OR x:(d OR [e TO f\x7d)" = .ok tree ∧
    tree.isFieldGroup = false ∧ ∀ node ∈ tree.subtrees, node.WellJoined := by
  have h : Tree.parse "-a b AND c^2 OR x:(d OR [e TO f\x7d)" =
      .ok (.operation .or [.operation .implicit
      [.prefixed .minus (.word "a"), .operation .and [.word "b", .boost (.word "c") (some "2")]],
      .field "x" (.fieldGroup (.operation .or [.word "d",
        .range (.word "e") (.word "f") true false])) ⟨16, 33⟩]) :=
    Spelling.parse .empty .empty
      (.linked (.prefixed .minus .empty (.bare (.atom none (.word "a")))) (.beside .one)
        (.linked (.bare (.atom none (.word "b"))) (.and .one true .one)
          (.linked (.bare (.modified (.atom none (.word "c")) .empty .boost (some "2")))
            (.or .one .one) (.single (.bare (.group (some ⟨"x", .empty, .empty⟩) .empty
              (.linked (.bare (.atom none (.word "d"))) (.or .one .one) (.single (.bare (.atom none
                (.range true false .empty (.word "e") .one .one (.word "f") .empty))))) .empty))))))
      rfl (by decide) rfl
  exact ⟨_, h, parse_wellJoined h⟩

/-- A disjunction is no operand of a conjunction; in parentheses it is. -/
example : ¬ (Tree.operation .and [.operation .or [.word "a", .word "b"], .word "c"]).WellJoined ∧
    (Tree.operation .and [.group (.operation .or [.word "a", .word "b"]),
      .word "c"]).WellJoined := by
  refine ⟨fun h => absurd (h.2 _ List.mem_cons_self).tight (by decide), by decide,
    fun operand hmem => ?_⟩
  obtain rfl | rfl : operand = _ ∨ operand = _ := by simpa using hmem
  · exact ⟨by decide, rfl⟩
  · exact ⟨by decide, rfl⟩

end SkyResolver.Query
