import SkyResolver.Proofs.Query.Acceptance
import SkyResolver.Proofs.Text.Words

/-! Queries as parts of larger ones. What is a query by itself is one in parentheses and next to an
`OR` too, since none of these prolongs its last lexeme; and its clauses are then clauses of the
whole. -/
namespace SkyResolver.Query
open SkyResolver.Text

/-! ### Texts that prolong nothing -/

/-- The text prolongs nothing that it stands behind: no word, no name, no chain and no number. -/
structure Inert (r : List Char) : Prop where
  word : atWordChar r = false
  colon : colonAhead r = false
  start : startsOperand r = false
  digit : digitAhead r = false
  point : pointAhead r = false

lemma Inert.calmer {r : List Char} (h : Inert r) (s : List Char) : Calmer s r :=
  ⟨fun _ => h.word, fun _ => h.colon, fun _ => h.start⟩

lemma Inert.tamer {r : List Char} (h : Inert r) (s : List Char) : Tamer s r :=
  .of_false ⟨h.digit, h.point⟩

/-- What is valid somewhere is valid where nothing prolongs it. -/
lemma Spelling.Valid.inert {k : Rank} {p : Spelling k} {r s : List Char} (hp : p.Valid s)
    (h : Inert r) : p.Valid r :=
  (Spelling.Revises.refl p).valid hp (h.calmer s) fun _ => h.tamer s

lemma Inert.nil : Inert [] := ⟨rfl, rfl, Halts.startsOperand (.inl rfl), rfl, rfl⟩

lemma Inert.gap (gap : Gap) : Inert gap.chars := by
  by_cases hne : gap.chars = []
  · rw [hne]
    exact .nil
  have hnumber := not_digitAhead_gap gap.blank hne []
  have hword := atWordChar_of_gap (s := []) gap.blank hne
  rw [List.append_nil] at hnumber hword
  refine ⟨hword, ?_, ?_, hnumber.1, hnumber.2⟩
  · rw [← List.append_nil gap.chars, colonAhead_append gap.blank]
    rfl
  · rw [← List.append_nil gap.chars, startsOperand_append gap.blank]
    exact Inert.nil.start

lemma Inert.closing (gap : Gap) (s : List Char) : Inert (gap.chars ++ ')' :: s) := by
  have hcalmer := Calmer.of_halt gap (c := ')') (.inl rfl) [] s
  have htamer := Tamer.of_halt gap (c := ')') (.inl rfl) [] s
  refine ⟨hcalmer.word rfl, hcalmer.colon rfl, hcalmer.start Inert.nil.start, ?_, ?_⟩
  · exact Bool.eq_false_iff.2 fun h => Bool.false_ne_true (htamer.digit h)
  · exact Bool.eq_false_iff.2 fun h => Bool.false_ne_true (htamer.point h)

/-- An `OR` with a gap in front of it prolongs nothing. -/
lemma Inert.or {before after : Gap} {s : List Char} (hbefore : before.chars ≠ [])
    (hlink : (Link.or before after).Valid s) (hs : startsOperand s = true) :
    Inert ((Link.or before after).text ++ s) := by
  have hne : (Link.or before after).text ≠ [] := by simp [Link.text]
  have hnumber := Link.not_digitAhead hne s
  refine ⟨?_, Link.colonAhead _ hs, Link.startsOperand hlink hs, hnumber.1, hnumber.2⟩
  rw [Link.text, List.append_assoc]
  exact atWordChar_of_gap before.blank hbefore

/-! ### Clauses -/

/-- No object field stands outside of other fields. -/
def Spelling.Clear {k : Rank} (p : Spelling k) : Prop := p.objectFields [] = []

lemma Spelling.fst_objectFields {k : Rank} (p : Spelling k) (r r' : List Char) :
    (p.objectFields r).map Prod.fst = (p.objectFields r').map Prod.fst := by
  induction p generalizing r r' with
  | atom head value =>
    cases head with
    | none => rfl
    | some head =>
      rw [Spelling.objectFields, Spelling.objectFields]
      split <;> rfl
  | group head before inner after ih =>
    cases head with
    | none => exact ih _ _
    | some head =>
      rw [Spelling.objectFields, Spelling.objectFields]
      split <;> rfl
  | modified operand gap modifier number ih => exact ih _ _
  | bare element ih => exact ih r r'
  | prefixed op gap operand ih => exact ih r r'
  | single operand ih => exact ih r r'
  | linked first link rest ihFirst ihRest =>
    rw [Spelling.objectFields, Spelling.objectFields, List.map_append, List.map_append,
      ihFirst _ (link.text ++ (rest.text ++ r')), ihRest r r']

lemma Spelling.clear_iff {k : Rank} {p : Spelling k} (r : List Char) :
    p.Clear ↔ p.objectFields r = [] := by
  rw [Spelling.Clear, ← List.map_eq_nil_iff (f := Prod.fst), p.fst_objectFields [] r,
    List.map_eq_nil_iff]

lemma Spelling.clear_iff_tree {k : Rank} {p : Spelling k} (total : Nat) (r : List Char) :
    p.Clear ↔ (p.tree total r).objectFields = [] := by
  rw [p.clear_iff r, p.objectFields_tree, List.map_eq_nil_iff]

lemma clear_group {before after : Gap} {inner : Spelling .chain} :
    (Spelling.group none before inner after).Clear ↔ inner.Clear := by
  rw [Spelling.Clear, Spelling.objectFields, ← Spelling.clear_iff]

lemma clear_modified {operand : Spelling .element} {gap : Gap} {modifier : Modifier}
    {number : Option String} :
    (Spelling.modified operand gap modifier number).Clear ↔ operand.Clear := by
  rw [Spelling.Clear, Spelling.objectFields, ← Spelling.clear_iff]

lemma clear_linked {first : Spelling .operand} {link : Link} {rest : Spelling .chain} :
    (Spelling.linked first link rest).Clear ↔ first.Clear ∧ rest.Clear := by
  rw [Spelling.Clear, Spelling.objectFields, List.append_eq_nil_iff, ← Spelling.clear_iff,
    ← Spelling.clear_iff]

/-- Groups in place of object fields bring in the object fields of the groups, and no others. -/
lemma Spelling.clear_enclosed (inner : Spelling .element → List Char → Spelling .chain) {k : Rank}
    (p : Spelling k) (r : List Char) :
    (p.enclosed inner r).Clear ↔ ∀ x ∈ p.objectFields r, (inner x.1 x.2).Clear := by
  induction p generalizing r with
  | atom head value =>
    cases head with
    | none => simp [Spelling.enclosed, Spelling.Clear, Spelling.objectFields]
    | some head =>
      rw [Spelling.enclosed, Spelling.objectFields]
      split
      · simp [clear_group]
      · rename_i hname
        simp [Spelling.Clear, Spelling.objectFields, hname]
  | group head before operands after ih =>
    cases head with
    | none =>
      rw [Spelling.enclosed, clear_group, ih]
      rfl
    | some head =>
      rw [Spelling.enclosed, Spelling.objectFields]
      split
      · simp [clear_group]
      · rename_i hname
        simp [Spelling.Clear, Spelling.objectFields, hname]
  | modified operand gap modifier number ih =>
    rw [Spelling.enclosed, clear_modified, ih]
    rfl
  | bare element ih => exact ih r
  | prefixed op gap operand ih => exact ih r
  | single operand ih => exact ih r
  | linked first link rest ihFirst ihRest =>
    rw [Spelling.enclosed, Spelling.objectFields, clear_linked, ihFirst, ihRest,
      List.forall_mem_append]

/-! ### Chains one after another -/

/-- A chain with a link and another chain behind it. -/
def Spelling.followed : Spelling .chain → Link → Spelling .chain → Spelling .chain
  | .single operand, link, last => .linked operand link last
  | .linked first inner rest, link, last => .linked first inner (rest.followed link last)

section Followed
variable {link : Link} {last : Spelling .chain}

lemma text_followed : ∀ p : Spelling .chain,
    (p.followed link last).text = p.text ++ (link.text ++ last.text)
  | .single operand => by rw [Spelling.followed, Spelling.text, Spelling.text]
  | .linked first inner rest => by
    rw [Spelling.followed, Spelling.text, text_followed rest, Spelling.text]
    simp

lemma valid_followed {r : List Char} (hlink : link.Valid (last.text ++ r)) (hlast : last.Valid r) :
    ∀ p : Spelling .chain, p.Valid (link.text ++ (last.text ++ r)) → (p.followed link last).Valid r
  | .single operand, hp => by
    rw [Spelling.followed]
    exact ⟨hp, hlink, hlast⟩
  | .linked first inner rest, ⟨hfirst, hinner, hrest⟩ => by
    have htext : (rest.followed link last).text ++ r =
        rest.text ++ (link.text ++ (last.text ++ r)) := by simp [text_followed]
    rw [Spelling.followed, Spelling.Valid, htext]
    exact ⟨hfirst, hinner, valid_followed hlink hlast rest hrest⟩

lemma objectFields_followed (r : List Char) : ∀ p : Spelling .chain,
    (p.followed link last).objectFields r =
      p.objectFields (link.text ++ (last.text ++ r)) ++ last.objectFields r
  | .single operand => by rw [Spelling.followed, Spelling.objectFields, Spelling.objectFields]
  | .linked first inner rest => by
    rw [Spelling.followed, Spelling.objectFields, objectFields_followed r rest,
      Spelling.objectFields, text_followed]
    simp

lemma clear_followed {p : Spelling .chain} : (p.followed link last).Clear ↔ p.Clear ∧
    last.Clear := by
  rw [Spelling.Clear, objectFields_followed, List.append_eq_nil_iff, ← Spelling.clear_iff,
    ← Spelling.clear_iff]

end Followed

/-! ### Texts that are queries -/

/-- A way to read a text: a chain, valid by itself, with blanks around it. -/
structure Layout (s : List Char) where
  before : Gap
  chain : Spelling .chain
  after : Gap
  text_eq : s = before.chars ++ (chain.text ++ after.chars)
  valid : chain.Valid []

namespace Layout
variable {s t : List Char}

/-- The tree of the text. -/
def tree (layout : Layout s) : Tree := layout.chain.tree (byteLength s) layout.after.chars

lemma exists_of_ofChars? {tree : Tree} (h : Tree.ofChars? s = some tree) :
    ∃ layout : Layout s, layout.tree = tree := by
  obtain ⟨before, after, chain, htext, hvalid, htree⟩ := exists_spelling h
  exact ⟨⟨before, chain, after, htext, hvalid.inert .nil⟩, htree⟩

lemma ofChars?_eq (layout : Layout s) : Tree.ofChars? s = some layout.tree := by
  have h := Spelling.ofChars? layout.before layout.after (layout.valid.inert (.gap layout.after))
  rwa [← layout.text_eq] at h

/-- The reading of two texts with `OR` between them. -/
def or (first : Layout s) (second : Layout t) : Layout (s ++ (" OR ".toList ++ t)) where
  before := first.before
  chain := first.chain.followed (.or (first.after.append .one) (Gap.one.append second.before))
    second.chain
  after := second.after
  text_eq := by
    simp [first.text_eq, second.text_eq, text_followed, Link.text, Gap.append, Gap.one]
  valid := by
    have hlink : (Link.or (first.after.append .one) (Gap.one.append second.before)).Valid
        (second.chain.text ++ []) := atWordChar_of_gap (Gap.blank _) (by simp [Gap.append, Gap.one])
    have hbefore : (first.after.append .one).chars ≠ [] := by simp [Gap.append, Gap.one]
    exact valid_followed hlink second.valid first.chain
      (first.valid.inert (.or hbefore hlink second.valid.front.2))

lemma clear_or {first : Layout s} {second : Layout t} :
    (first.or second).chain.Clear ↔ first.chain.Clear ∧ second.chain.Clear := clear_followed

/-- The text as a part of an expression within the astronomy collection. -/
def restricted (layout : Layout s) : Spelling .chain :=
  .linked (.bare (.group none layout.before layout.chain layout.after)) (.beside .one)
    (.single (.bare (.atom (some ⟨"database", .empty, .empty⟩) (.word "astronomy"))))

lemma valid_restricted (layout : Layout s) : layout.restricted.Valid [] := by
  have hname : IsFieldName (FieldHead.mk "database" .empty .empty).name.toList := by decide
  exact ⟨⟨by simp, layout.valid.inert (.closing layout.after _)⟩, FieldHead.takesAnd hname _,
    by simpa using hname, by decide, rfl, rfl⟩

lemma text_restricted (layout : Layout s) :
    '(' :: (layout.restricted.text ++ [')']) = (withinAstronomy (String.ofList s)).toList := by
  simp [restricted, layout.text_eq, withinAstronomy, Spelling.text, headText, FieldHead.text,
    Atom.text, Link.text, Gap.one, Gap.empty]

lemma clear_restricted {layout : Layout s} : layout.restricted.Clear ↔ layout.chain.Clear := by
  have hdatabase : (Spelling.single (.bare (.atom (some ⟨"database", .empty, .empty⟩)
      (.word "astronomy")))).Clear := by
    have hname : isObjectField "database" = false := by decide
    simp [Spelling.Clear, Spelling.objectFields, hname]
  rw [restricted, clear_linked, and_iff_left hdatabase]
  exact clear_group

end Layout

/-- Queries with `OR` between them are a query, and its clauses are theirs. -/
lemma exists_layout_join {first : List Char} {rest : List (List Char)}
    (h : ∀ s ∈ first :: rest, ∃ tree, Tree.ofChars? s = some tree) :
    ∃ layout : Layout (join " OR ".toList (first :: rest)), layout.chain.Clear ↔
      ∀ s ∈ first :: rest, ∀ tree, Tree.ofChars? s = some tree → tree.objectFields = [] := by
  have hone : ∀ s, (∃ tree, Tree.ofChars? s = some tree) → ∃ layout : Layout s,
      layout.chain.Clear ↔ ∀ tree, Tree.ofChars? s = some tree → tree.objectFields = [] := by
    rintro s ⟨tree, htree⟩
    obtain ⟨layout, rfl⟩ := Layout.exists_of_ofChars? htree
    refine ⟨layout, ?_⟩
    rw [Spelling.clear_iff_tree (byteLength s) layout.after.chars]
    simp [layout.ofChars?_eq, Layout.tree]
  induction rest generalizing first with
  | nil =>
    rw [join_singleton]
    simpa using hone first (h first (by simp))
  | cons second rest ih =>
    obtain ⟨layout, hclear⟩ := hone first (h first (by simp))
    obtain ⟨others, hothers⟩ := ih fun s hs => h s (List.mem_cons_of_mem first hs)
    rw [join_cons_cons]
    refine ⟨layout.or others, ?_⟩
    rw [Layout.clear_or, hclear, hothers, List.forall_mem_cons (a := first)]

end SkyResolver.Query
