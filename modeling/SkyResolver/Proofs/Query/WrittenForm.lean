import SkyResolver.Proofs.Query.Revision

/-! The written form of a tree. It is the text of the plain spelling, which has single blanks
between operands and keywords for symbols; plain spellings are revisions, so the written form of a
query is a query again, and its tree is the tree of the query but for the spans. -/
namespace SkyResolver.Query
open SkyResolver.Text

/-! ### Plain spellings -/

def FieldHead.plain (head : FieldHead) : FieldHead := ⟨head.name, .empty, .empty⟩

def Atom.plain : Atom → Atom
  | .range includeLow includeHigh _ low _ _ high _ =>
    .range includeLow includeHigh .empty low .one .one high .empty
  | atom => atom

/-- The same spelling with as few blanks as the written form has. -/
def Spelling.plain : {k : Rank} → Spelling k → Spelling k
  | _, .atom head value => .atom (head.map FieldHead.plain) value.plain
  | _, .group head _ inner _ => .group (head.map FieldHead.plain) .empty inner.plain .empty
  | _, .modified operand _ modifier number => .modified operand.plain .empty modifier number
  | _, .bare element => .bare element.plain
  | _, .prefixed op _ operand => .prefixed op (if op = .not then .one else .empty) operand.plain
  | _, .single operand => .single operand.plain
  | _, .linked first link rest => .linked first.plain link.plain rest.plain

lemma HeadRevises.plain (head : Option FieldHead) :
    HeadRevises head (head.map FieldHead.plain) := by
  refine ⟨by simp, fun h => ?_⟩
  cases head with
  | none => simp
  | some head =>
    intro head' hhead'
    cases hhead'
    exact h head rfl

lemma Bound.Valid.of_gap {bound : Bound} {r : List Char} (h : bound.Valid r) (s : List Char) :
    bound.Valid (Gap.one.chars ++ s) := by
  cases bound with
  | word text => exact ⟨h.1, rfl⟩
  | phrase text => exact h

lemma Bound.Valid.of_bracket {bound : Bound} {r : List Char} (h : bound.Valid r) (closed : Bool)
    (s : List Char) : bound.Valid (closingBracket closed :: s) := by
  cases bound with
  | word text => exact ⟨h.1, by cases closed <;> simp [closingBracket, runsOn, atWordChar,
      isPlain, isSpecial]⟩
  | phrase text => exact h

lemma Atom.Revises.plain (colons : Bool) (atom : Atom) : atom.Revises colons atom.plain := by
  cases atom with
  | word text => exact .refl colons _
  | phrase text => exact .refl colons _
  | range includeLow includeHigh g₁ low g₂ g₃ high g₄ =>
    refine .range fun r r' h => ?_
    obtain ⟨hlow, hto, hhigh⟩ := h
    exact ⟨hlow.of_gap _, Gap.atWordChar_one _, hhigh.of_bracket _ _⟩

theorem Spelling.Revises.plain {k : Rank} (p : Spelling k) : p.Revises p.plain := by
  induction p with
  | atom head value => exact .atom (.plain head) (.plain _ value)
  | group head before inner after ih => exact .group _ _ _ _ (.plain head) ih
  | modified operand gap modifier number ih => exact .modified _ _ _ _ ih
  | bare element ih => exact .bare ih
  | prefixed op gap operand ih => exact .prefixed _ _ _ (fun h => .inr (by rw [if_pos h])) ih
  | single operand ih => exact .single ih
  | linked first link rest ihFirst ihRest =>
    exact .linked ihFirst (.inr rfl) ihRest fun _ hempty => absurd hempty link.plain_text_ne_nil

/-! ### The text of the plain spelling -/

lemma write_ofOperands (op : Connective) (trees : List Tree) :
    (Tree.ofOperands op trees).write = Tree.writeJoined op.separator trees := by
  unfold Tree.ofOperands
  split
  · simp [Tree.writeJoined]
  · simp [Tree.write]

/-- What stands in front of the first operand stands in front of all. -/
lemma writeJoined_cons_of_eq {separator u : List Char} {tree tree' : Tree} {trees : List Tree}
    (h : tree'.write = u ++ tree.write) : Tree.writeJoined separator (tree' :: trees) =
      u ++ Tree.writeJoined separator (tree :: trees) := by
  simp [Tree.writeJoined, h]

lemma writeJoined_cons {separator : List Char} {tree : Tree} {trees : List Tree} (h : trees ≠ []) :
    Tree.writeJoined separator (tree :: trees) =
      tree.write ++ (separator ++ Tree.writeJoined separator trees) := by
  obtain ⟨_, _, rfl⟩ := List.exists_cons_of_ne_nil h
  rw [Tree.writeJoined]

/-- An operand attached to a chain is written in front of it, with the plain link between. -/
lemma Link.write_attach (link : Link) (tree : Tree) {joined : Joined} (h : joined.conjuncts ≠ []) :
    (link.attach tree joined).tree.write =
      tree.write ++ (link.plain.text ++ joined.tree.write) := by
  simp only [Joined.tree, Joined.alternatives, Joined.juxtaposition, write_ofOperands]
  cases link with
  | and before keyword after =>
    rw [← List.append_assoc]
    refine writeJoined_cons_of_eq ?_
    rw [write_ofOperands, write_ofOperands]
    refine writeJoined_cons_of_eq ?_
    rw [write_ofOperands, write_ofOperands, Link.attach, writeJoined_cons h, List.append_assoc]
    rfl
  | beside gap =>
    rw [← List.append_assoc]
    refine writeJoined_cons_of_eq ?_
    rw [write_ofOperands, write_ofOperands, Link.attach, Joined.juxtaposition,
      writeJoined_cons (by simp), List.append_assoc]
    rfl
  | or before after =>
    rw [Link.attach, Joined.alternatives, Joined.juxtaposition, writeJoined_cons (by simp)]
    rfl

lemma Spelling.joined_ne_nil {k : Rank} (p : Spelling k) (total : Nat) (r : List Char) :
    (p.joined total r).conjuncts ≠ [] := by
  induction p generalizing r with
  | atom | group | modified | prefixed => simp [Spelling.joined, Joined.single]
  | bare _ ih => exact ih r
  | single _ ih => exact ih r
  | linked first link rest _ ih => cases link <;> simp [Spelling.joined, Link.attach]

lemma Atom.text_plain (atom : Atom) : atom.plain.text = atom.tree.write := by
  have hbound : ∀ bound : Bound, bound.text = bound.tree.write := fun bound => by
    cases bound <;> simp [Bound.text, Bound.tree, Tree.write]
  cases atom with
  | word text => simp [Atom.plain, Atom.text, Atom.tree, Tree.write]
  | phrase text => simp [Atom.plain, Atom.text, Atom.tree, Tree.write]
  | range => simp [Atom.plain, Atom.text, Atom.tree, Tree.write, hbound, Gap.empty, Gap.one]

/-- The text of the plain spelling is the written form of the tree. -/
theorem Spelling.text_plain {k : Rank} (p : Spelling k) (total : Nat) (r : List Char) :
    p.plain.text = (p.tree total r).write := by
  induction p generalizing r with
  | atom head value =>
    rw [Spelling.tree, Spelling.joined, Joined.tree_single, Spelling.plain, Spelling.text,
      Atom.text_plain]
    cases head <;> simp [headText, FieldHead.text, FieldHead.plain, named, Tree.write, Gap.empty]
  | group head before inner after ih =>
    rw [Spelling.tree, Spelling.joined, Joined.tree_single, Spelling.plain, Spelling.text,
      ih (after.chars ++ ')' :: r)]
    cases head <;>
      simp [headText, FieldHead.text, FieldHead.plain, named, Tree.write, Gap.empty, Spelling.tree]
  | modified operand gap modifier number ih =>
    rw [Spelling.tree, Spelling.joined, Joined.tree_single, Spelling.plain, Spelling.text,
      ih (gap.chars ++ modifier.mark :: (optionalChars number ++ r))]
    cases modifier <;> simp [Modifier.apply, Modifier.mark, Tree.write, Gap.empty, Spelling.tree]
  | bare element ih => exact ih r
  | prefixed op gap operand ih =>
    rw [Spelling.tree, Spelling.joined, Joined.tree_single, Spelling.plain, Spelling.text, ih r]
    cases op <;> simp [signText, PrefixOp.mark, Tree.write, Gap.empty, Gap.one, Spelling.tree]
  | single operand ih => exact ih r
  | linked first link rest ihFirst ihRest =>
    rw [Spelling.tree, Spelling.joined, Link.write_attach link _ (rest.joined_ne_nil total r),
      Spelling.plain, Spelling.text, ihFirst (link.text ++ (rest.text ++ r)), ihRest r]
    rfl

/-! ### Trees up to spans -/

mutual

/-- The tree with all its fields at the start of the query. -/
def Tree.withoutSpans : Tree → Tree
  | .word text => .word text
  | .phrase text => .phrase text
  | .field name value _ => .field name value.withoutSpans ⟨0, 0⟩
  | .group inner => .group inner.withoutSpans
  | .fieldGroup inner => .fieldGroup inner.withoutSpans
  | .operation op operands => .operation op (Tree.withoutSpansAll operands)
  | .prefixed op operand => .prefixed op operand.withoutSpans
  | .boost operand factor => .boost operand.withoutSpans factor
  | .approx operand degree => .approx operand.withoutSpans degree
  | .range low high includeLow includeHigh =>
    .range low.withoutSpans high.withoutSpans includeLow includeHigh

/-- The trees of a list with their fields at the start of the query. -/
def Tree.withoutSpansAll : List Tree → List Tree
  | [] => []
  | tree :: trees => tree.withoutSpans :: Tree.withoutSpansAll trees

end

lemma Tree.withoutSpansAll_eq (trees : List Tree) :
    Tree.withoutSpansAll trees = trees.map Tree.withoutSpans := by
  induction trees with
  | nil => rfl
  | cons tree trees ih => rw [Tree.withoutSpansAll, ih, List.map_cons]

/-- The operands of a chain, each changed by a function. -/
def Joined.map (f : Tree → Tree) (joined : Joined) : Joined :=
  ⟨joined.conjuncts.map f, joined.members.map f, joined.disjuncts.map f⟩

lemma ofOperands_map {f : Tree → Tree}
    (hf : ∀ op trees, f (.operation op trees) = .operation op (trees.map f)) (op : Connective)
    (trees : List Tree) : f (Tree.ofOperands op trees) = Tree.ofOperands op (trees.map f) := by
  unfold Tree.ofOperands
  match trees with
  | [] => exact hf op []
  | [tree] => rfl
  | tree :: tree' :: trees => exact hf op _

/-- A function that goes into operations changes the operands of a chain. -/
lemma Joined.tree_map {f : Tree → Tree}
    (hf : ∀ op trees, f (.operation op trees) = .operation op (trees.map f)) (joined : Joined) :
    f joined.tree = (joined.map f).tree := by
  simp only [Joined.tree, Joined.alternatives, Joined.juxtaposition, Joined.map, ofOperands_map hf,
    List.map_cons]

lemma Link.attach_map {f : Tree → Tree}
    (hf : ∀ op trees, f (.operation op trees) = .operation op (trees.map f)) (link : Link)
    (tree : Tree) (joined : Joined) :
    (link.attach tree joined).map f = link.attach (f tree) (joined.map f) := by
  cases link <;>
    simp [Link.attach, Joined.map, Joined.alternatives, Joined.juxtaposition, ofOperands_map hf]

mutual

lemma Tree.write_withoutSpans : ∀ tree : Tree, tree.withoutSpans.write = tree.write
  | .word text => rfl
  | .phrase text => rfl
  | .field name value span => by
    rw [Tree.withoutSpans, Tree.write, Tree.write, Tree.write_withoutSpans value]
  | .group inner => by rw [Tree.withoutSpans, Tree.write, Tree.write, Tree.write_withoutSpans inner]
  | .fieldGroup inner => by
    rw [Tree.withoutSpans, Tree.write, Tree.write, Tree.write_withoutSpans inner]
  | .operation op operands => by
    rw [Tree.withoutSpans, Tree.write, Tree.write, Tree.writeJoined_withoutSpans]
  | .prefixed op operand => by
    rw [Tree.withoutSpans, Tree.write, Tree.write, Tree.write_withoutSpans operand]
  | .boost operand factor => by
    rw [Tree.withoutSpans, Tree.write, Tree.write, Tree.write_withoutSpans operand]
  | .approx operand degree => by
    rw [Tree.withoutSpans, Tree.write, Tree.write, Tree.write_withoutSpans operand]
  | .range low high includeLow includeHigh => by
    rw [Tree.withoutSpans, Tree.write, Tree.write, Tree.write_withoutSpans low,
      Tree.write_withoutSpans high]

lemma Tree.writeJoined_withoutSpans (separator : List Char) : ∀ trees : List Tree,
    Tree.writeJoined separator (Tree.withoutSpansAll trees) = Tree.writeJoined separator trees
  | [] => rfl
  | [tree] => by
    simp only [Tree.withoutSpansAll, Tree.writeJoined, Tree.write_withoutSpans tree]
  | tree :: tree' :: trees => by
    have := Tree.writeJoined_withoutSpans separator (tree' :: trees)
    have hne : Tree.withoutSpansAll (tree' :: trees) ≠ [] := by simp [Tree.withoutSpansAll]
    rw [Tree.withoutSpansAll, writeJoined_cons hne, this, Tree.write_withoutSpans tree,
      ← writeJoined_cons (List.cons_ne_nil tree' trees)]

end

lemma toText_congr {tree tree' : Tree} (h : tree'.withoutSpans = tree.withoutSpans) :
    tree'.toText = tree.toText := by
  rw [Tree.toText, ← Tree.write_withoutSpans tree', h, Tree.write_withoutSpans]
  rfl

lemma withoutSpans_operation (op : Connective) (trees : List Tree) :
    (Tree.operation op trees).withoutSpans = .operation op (trees.map Tree.withoutSpans) := by
  rw [Tree.withoutSpans, Tree.withoutSpansAll_eq]

lemma Atom.tree_plain (atom : Atom) : atom.plain.tree = atom.tree := by
  cases atom <;> rfl

lemma Joined.map_single (f : Tree → Tree) (tree : Tree) :
    (Joined.single tree).map f = .single (f tree) := rfl

/-- Chains whose operands differ in the spans of fields only have trees that do. -/
lemma Joined.withoutSpans_tree_congr {joined joined' : Joined}
    (h : joined'.map Tree.withoutSpans = joined.map Tree.withoutSpans) :
    joined'.tree.withoutSpans = joined.tree.withoutSpans := by
  rw [Joined.tree_map withoutSpans_operation, h, ← Joined.tree_map withoutSpans_operation]

/-- The plain spelling has the same operands but for the spans of the fields. -/
theorem Spelling.joined_plain {k : Rank} (p : Spelling k) (total total' : Nat) (r r' : List Char) :
    (p.plain.joined total' r').map Tree.withoutSpans =
      (p.joined total r).map Tree.withoutSpans := by
  induction p generalizing r r' with
  | atom head value =>
    simp only [Spelling.plain, Spelling.joined, Joined.map_single, Atom.tree_plain]
    cases head <;> simp [named, Tree.withoutSpans, FieldHead.plain]
  | group head before inner after ih =>
    have hinner := Joined.withoutSpans_tree_congr
      (ih (after.chars ++ ')' :: r) (Gap.empty.chars ++ ')' :: r'))
    simp only [Spelling.plain, Spelling.joined, Joined.map_single]
    cases head <;> simp [named, Tree.withoutSpans, FieldHead.plain, hinner]
  | modified operand gap modifier number ih =>
    have hoperand := Joined.withoutSpans_tree_congr
      (ih (gap.chars ++ modifier.mark :: (optionalChars number ++ r))
        (Gap.empty.chars ++ modifier.mark :: (optionalChars number ++ r')))
    simp only [Spelling.plain, Spelling.joined, Joined.map_single]
    cases modifier <;> simp only [Modifier.apply, Tree.withoutSpans, hoperand]
  | bare element ih => exact ih r r'
  | prefixed op gap operand ih =>
    simp only [Spelling.plain, Spelling.joined, Joined.map_single, Tree.withoutSpans,
      Joined.withoutSpans_tree_congr (ih r r')]
  | single operand ih => exact ih r r'
  | linked first link rest ihFirst ihRest =>
    have hfirst := Joined.withoutSpans_tree_congr (ihFirst (link.text ++ (rest.text ++ r))
      (link.plain.text ++ (rest.plain.text ++ r')))
    simp only [Spelling.plain, Spelling.joined, Link.attach_map withoutSpans_operation, hfirst,
      ihRest r r']
    cases link <;> rfl

/-! ### Characters that are kept -/

/-- True of no blank and of no character of an `AND`: which of these characters a text has does not
change with its spelling. -/
structure IsMark (f : Char → Bool) : Prop where
  gap : ∀ c, isGap c = true → f c = false
  and : ∀ c ∈ ['A', 'N', 'D', '&'], f c = false

namespace IsMark
variable {f : Char → Bool} (hf : IsMark f)
include hf

lemma filter_gap (gap : Gap) : gap.chars.filter f = [] :=
  List.filter_eq_nil_iff.2 fun c hc => by simp [hf.gap c (gap.blank c hc)]

lemma filter_and (keyword : Bool) : (andText keyword).filter f = [] := by
  refine List.filter_eq_nil_iff.2 fun c hc => ?_
  rw [hf.and c (by cases keyword <;> simp [andText] at hc ⊢ <;> tauto)]
  exact Bool.false_ne_true

lemma filter_atom (atom : Atom) : atom.plain.text.filter f = atom.text.filter f := by
  cases atom with
  | word | phrase => rfl
  | range => simp [Atom.plain, Atom.text, List.filter_cons, hf.filter_gap]

lemma filter_head (head : Option FieldHead) :
    (headText (head.map FieldHead.plain)).filter f = (headText head).filter f := by
  cases head <;> simp [headText, FieldHead.text, FieldHead.plain, List.filter_cons, hf.filter_gap]

lemma filter_link (link : Link) : link.plain.text.filter f = link.text.filter f := by
  cases link <;> simp [Link.plain, Link.text, List.filter_cons, hf.filter_gap, hf.filter_and]

/-- The plain spelling has the same marks. -/
theorem filter_plain {k : Rank} (p : Spelling k) : p.plain.text.filter f = p.text.filter f := by
  induction p with
  | atom head value => simp [Spelling.plain, Spelling.text, hf.filter_head, hf.filter_atom]
  | group head before inner after ih =>
    simp [Spelling.plain, Spelling.text, List.filter_cons, hf.filter_head, hf.filter_gap, ih]
  | modified operand gap modifier number ih =>
    simp [Spelling.plain, Spelling.text, List.filter_cons, hf.filter_gap, ih]
  | bare element ih => exact ih
  | prefixed op gap operand ih => simp [Spelling.plain, Spelling.text, hf.filter_gap, ih]
  | single operand ih => exact ih
  | linked first link rest ihFirst ihRest =>
    simp [Spelling.plain, Spelling.text, hf.filter_link, ihFirst, ihRest]

end IsMark

/-! ### Parentheses -/

/-- The parentheses of a text, in order. -/
def parentheses (s : List Char) : List Char := s.filter fun c => c == '(' || c == ')'

lemma closesAll_parentheses (depth : Nat) (s : List Char) :
    closesAll depth (parentheses s) = closesAll depth s := by
  induction s generalizing depth with
  | nil => rfl
  | cons c s ih =>
    by_cases hopen : c = '('
    · subst hopen
      simpa [parentheses, closesAll] using ih (depth + 1)
    · by_cases hclose : c = ')'
      · subst hclose
        simp only [parentheses] at ih
        simp [parentheses, closesAll, ih]
      · simp only [parentheses] at ih
        simp [parentheses, closesAll, hopen, hclose, ih]

lemma parentheses_append (s t : List Char) :
    parentheses (s ++ t) = parentheses s ++ parentheses t := List.filter_append s t

lemma parentheses_cons (c : Char) (s : List Char) : parentheses (c :: s) =
    if c = '(' ∨ c = ')' then c :: parentheses s else parentheses s := by
  simp [parentheses, List.filter_cons]

lemma parentheses_eq_nil {s : List Char} (h : ∀ c ∈ s, c ≠ '(' ∧ c ≠ ')') : parentheses s = [] := by
  rw [parentheses, List.filter_eq_nil_iff]
  intro c hc
  simp [h c hc]

@[simp] lemma Gap.parentheses (gap : Gap) : parentheses gap.chars = [] := by
  refine parentheses_eq_nil fun c hc => ⟨?_, ?_⟩ <;>
  · rintro rfl
    cases gap.blank _ hc

lemma Link.parentheses (link : Link) : parentheses link.text = [] := by
  cases link with
  | and before keyword after =>
    cases keyword <;> simp [Link.text, andText, parentheses_append, parentheses_cons]
  | beside gap => exact gap.parentheses
  | or before after => simp [Link.text, parentheses_append, parentheses_cons]

/-- The plain spelling has the same parentheses. -/
theorem Spelling.parentheses_plain {k : Rank} (p : Spelling k) :
    parentheses p.plain.text = parentheses p.text := by
  have hf : IsMark fun c => c == '(' || c == ')' := by
    refine ⟨fun c hc => ?_, by simp⟩
    rw [← Bool.not_eq_true, Bool.or_eq_true, beq_iff_eq, beq_iff_eq]
    rintro (rfl | rfl) <;> cases hc
  exact hf.filter_plain p

/-! ### Queries -/

lemma parse_eq_ok {query : String} {tree : Tree} : Tree.parse query = .ok tree ↔
    parenthesesMatch query = true ∧ Tree.ofChars? query.toList = some tree := by
  unfold Tree.parse
  split
  · rename_i hbalanced
    cases Tree.ofChars? query.toList <;> simp [hbalanced]
  · rename_i hbalanced
    simp [hbalanced]

/-- A query with balanced parentheses that is spelled validly has the spelled tree. -/
theorem Spelling.parse (before after : Gap) (p : Spelling .chain) {query : String}
    (hquery : query.toList = before.chars ++ (p.text ++ after.chars)) (hvalid : p.Valid after.chars)
    (hbalanced : parenthesesMatch query = true) :
    Tree.parse query = .ok (p.tree (byteLength query.toList) after.chars) := by
  have hchars := Spelling.ofChars? before after hvalid
  rw [← hquery] at hchars
  exact parse_eq_ok.2 ⟨hbalanced, hchars⟩

/-- A query whose tree is written and parsed again gives the same tree but for the spans of its
fields; so the written form is its own written form. -/
theorem parse_toText {query : String} {tree : Tree} (h : Tree.parse query = .ok tree) :
    ∃ tree', Tree.parse tree.toText = .ok tree' ∧ tree'.withoutSpans = tree.withoutSpans ∧
      tree'.toText = tree.toText := by
  obtain ⟨hbalanced, hchars⟩ := parse_eq_ok.1 h
  obtain ⟨before, after, p, hquery, hvalid, rfl⟩ := exists_spelling hchars
  have hplain : p.plain.Valid Gap.empty.chars := by
    have hstart : startsOperand Gap.empty.chars = false := Halts.startsOperand (.inl rfl)
    exact (Spelling.Revises.plain p).valid hvalid ⟨fun _ => rfl, fun _ => rfl, fun _ => hstart⟩
      fun _ => .of_false ⟨rfl, rfl⟩
  have htext := p.text_plain (byteLength query.toList) after.chars
  have hwritten : (p.tree (byteLength query.toList) after.chars).toText.toList =
      Gap.empty.chars ++ (p.plain.text ++ Gap.empty.chars) := by
    rw [Tree.toText, String.toList_ofList, htext]
    simp [Gap.empty]
  have hsame :
      (p.plain.tree (byteLength (p.tree (byteLength query.toList) after.chars).toText.toList)
      Gap.empty.chars).withoutSpans =
      (p.tree (byteLength query.toList) after.chars).withoutSpans := by
    rw [Spelling.tree, Spelling.tree, Joined.tree_map withoutSpans_operation,
      Joined.tree_map withoutSpans_operation, p.joined_plain]
  refine ⟨_, Spelling.parse _ _ _ hwritten hplain ?_, hsame, ?_⟩
  · rw [parenthesesMatch, hwritten, ← closesAll_parentheses, parentheses_append,
      parentheses_append, Spelling.parentheses_plain]
    rw [parenthesesMatch, hquery, ← closesAll_parentheses] at hbalanced
    simpa [parentheses_append] using hbalanced
  · exact toText_congr hsame

theorem parse_toText_of_symbol :
    Tree.parse "a  &&b" = .ok (.operation .and [.word "a", .word "b"]) ∧
    ∃ tree', Tree.parse (Tree.operation .and [.word "a", .word "b"]).toText = .ok tree' ∧
      tree'.withoutSpans = (Tree.operation .and [.word "a", .word "b"]).withoutSpans ∧
      tree'.toText = (Tree.operation .and [.word "a", .word "b"]).toText :=
  have h : Tree.parse "a  &&b" = .ok (.operation .and [.word "a", .word "b"]) :=
    Spelling.parse .empty .empty
      (.linked (.bare (.atom none (.word "a"))) (.and ⟨[' ', ' '], by decide⟩ false .empty)
        (.single (.bare (.atom none (.word "b"))))) rfl (by decide) rfl
  ⟨h, parse_toText h⟩

end SkyResolver.Query
