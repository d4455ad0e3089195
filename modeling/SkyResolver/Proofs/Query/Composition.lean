import SkyResolver.Proofs.Query.Acceptance

/-! Queries that are put together from fields. Fields with a blank between neighbours make a
juxtaposition, and terms with `OR` between them a disjunction; since `OR` binds loosest, a
juxtaposition behind the last `OR` is the last alternative and holds the last term alone. -/
namespace SkyResolver.Query
open SkyResolver.Text

/-! ### Plain words -/

/-- A word of letters, digits and underscores that is no operator. -/
structure IsPlainWord (word : String) : Prop where
  ne_empty : word ≠ ""
  chars : ∀ c ∈ word.toList, c.isAlphanum = true ∨ c = '_'
  free : word ≠ "AND" ∧ word ≠ "OR" ∧ word ≠ "NOT"

lemma isPlainWord_iff {word : String} : IsPlainWord word ↔ word ≠ "" ∧
    (word.toList.all fun c => c.isAlphanum || c == '_') = true ∧
    word ≠ "AND" ∧ word ≠ "OR" ∧ word ≠ "NOT" := by
  have hchars : (word.toList.all fun c => c.isAlphanum || c == '_') = true ↔
      ∀ c ∈ word.toList, c.isAlphanum = true ∨ c = '_' := by simp
  rw [hchars]
  exact ⟨fun h => ⟨h.1, h.2, h.3⟩, fun h => ⟨h.1, h.2.1, h.2.2⟩⟩

instance (word : String) : Decidable (IsPlainWord word) := decidable_of_iff' _ isPlainWord_iff

lemma run_of_isPlain (colons : Bool) {w : List Char} (h : ∀ c ∈ w, isPlain c = true) :
    Run colons w := by
  induction w with
  | nil => exact .nil
  | cons c w ih =>
    exact .plain (by simp [h c (by simp)]) (ih fun d hd => h d (by simp [hd]))

lemma isTerm_of_isPlain (colons : Bool) {w : List Char} (h : ∀ c ∈ w, isPlain c = true)
    (hne : w ≠ []) (hsign : ∀ c ∈ w.head?, c ≠ '+' ∧ c ≠ '-')
    (hfree : w ≠ "AND".toList ∧ w ≠ "OR".toList ∧ w ≠ "NOT".toList) : IsTerm colons w := by
  refine ⟨run_of_isPlain colons h, hne, fun c hc => ⟨(hsign c hc).1, (hsign c hc).2, ?_⟩, ?_⟩
  · rintro rfl
    cases h ':' (List.mem_of_mem_head? hc)
  · have hkeyword : ∀ k : String, (∀ c ∈ k.toList, isPlain c = true) → w ≠ k.toList →
        (keyword? k w).isSome = false := by
      intro k hk hw
      cases hread : keyword? k w with
      | none => rfl
      | some r => exact absurd (eq_of_keyword? hk (run_of_isPlain false h) rfl hread).1 hw
    rw [atReserved, hkeyword _ (plain_of_mem_keyword (.inl rfl)) hfree.1,
      hkeyword _ (plain_of_mem_keyword (.inr (.inl rfl))) hfree.2.1,
      hkeyword _ (plain_of_mem_keyword (.inr (.inr (.inl rfl)))) hfree.2.2]
    rfl

section PlainWord
variable {word : String}

lemma IsPlainWord.isPlain (h : IsPlainWord word) : ∀ c ∈ word.toList, isPlain c = true := by
  intro c hc
  rcases h.chars c hc with hc | rfl
  · exact isAlphanum_plain hc
  · rfl

lemma IsPlainWord.isTerm (h : IsPlainWord word) (colons : Bool) : IsTerm colons word.toList := by
  refine isTerm_of_isPlain colons h.isPlain (by simpa using h.ne_empty) (fun c hc => ?_) ?_
  · rcases h.chars c (List.mem_of_mem_head? hc) with hc | rfl
    · refine ⟨?_, ?_⟩ <;>
      · rintro rfl
        cases hc
    · decide
  · obtain ⟨hand, hor, hnot⟩ := h.free
    exact ⟨fun h => hand (String.toList_inj.1 h), fun h => hor (String.toList_inj.1 h),
      fun h => hnot (String.toList_inj.1 h)⟩

end PlainWord

@[simp] lemma parentheses_nil : parentheses [] = [] := rfl

lemma parentheses_of_isPlain {w : List Char} (h : ∀ c ∈ w, isPlain c = true) :
    parentheses w = [] := by
  refine parentheses_eq_nil fun c hc => ⟨?_, ?_⟩ <;>
  · rintro rfl
    cases h _ hc

lemma parentheses_disjunction {first : String} {rest : List String}
    (h : ∀ word ∈ first :: rest, IsPlainWord word) :
    parentheses (disjunction (.atom none (.word first))
      (rest.map fun word => .atom none (.word word))).text = [] := by
  induction rest generalizing first with
  | nil => exact parentheses_of_isPlain (h first (by simp)).isPlain
  | cons second rest ih =>
    have hfirst := parentheses_of_isPlain (h first (by simp)).isPlain
    rw [List.map_cons, disjunction, Spelling.text, parentheses_append, parentheses_append,
      Link.parentheses, ih fun word hword => h word (List.mem_cons_of_mem _ hword)]
    simpa [Spelling.text, headText, Atom.text] using hfirst

/-! ### Fields that stand among others -/

/-- The field may stand next to any other operand. -/
structure Spelling.Standalone (p : Spelling .element) : Prop where
  valid : ∀ r, atWordChar r = false → colonAhead r = false → p.Valid r
  noAnd : ∀ r, takesAnd (p.text ++ r) = false
  balanced : closesAll 0 p.text = true

/-- A field that holds one word. -/
def wordField (name word : String) : Spelling .element :=
  .atom (some ⟨name, .empty, .empty⟩) (.word word)

/-- A field that holds a disjunction of words. -/
def choiceField (name first : String) (rest : List String) : Spelling .element :=
  .group (some ⟨name, .empty, .empty⟩) .empty
    (disjunction (.atom none (.word first)) (rest.map fun word => .atom none (.word word))) .empty

section Fields
variable {name : String} (hname : IsFieldName name.toList)
include hname

lemma parentheses_head : parentheses (headText (some ⟨name, .empty, .empty⟩)) = [] := by
  obtain ⟨c, t, hchars, hc, ht⟩ := hname
  have hplain : parentheses name.toList = [] := by
    refine parentheses_of_isPlain fun d hd => ?_
    rw [hchars] at hd
    rcases List.mem_cons.1 hd with rfl | hd
    · exact isPlain_of_isNameStart hc
    · exact isPlain_of_isNameChar (ht d hd)
  simp [headText, FieldHead.text, parentheses_append, parentheses_cons, hplain, Gap.empty]

lemma wordField_standalone {word : String} (hterm : IsTerm true word.toList)
    (hplain : ∀ c ∈ word.toList, isPlain c = true) : (wordField name word).Standalone := by
  refine ⟨fun r hword hcolon => ?_, fun r => ?_, ?_⟩
  · refine ⟨fun head hhead => ?_, hterm, hword, hcolon⟩
    obtain rfl := Option.mem_some.1 hhead
    exact hname
  · rw [wordField, Spelling.text, headText, List.append_assoc]
    exact FieldHead.takesAnd hname _
  · rw [← closesAll_parentheses, wordField, Spelling.text, parentheses_append,
      parentheses_head hname, Atom.text, parentheses_of_isPlain hplain]
    rfl

lemma choiceField_standalone {first : String} {rest : List String}
    (hwords : ∀ word ∈ first :: rest, IsPlainWord word) :
    (choiceField name first rest).Standalone := by
  have hfree : ∀ word ∈ first :: rest, (Spelling.atom none (.word word)).Free := by
    intro word hword r hcalm _
    refine ⟨by simp, (hwords word hword).isTerm false, hcalm.word rfl, hcalm.colon rfl⟩
  refine ⟨fun r _ _ => ⟨fun head hhead => ?_, ?_⟩, fun r => ?_, ?_⟩
  · obtain rfl := Option.mem_some.1 hhead
    exact hname
  · refine valid_disjunction (hfree first (by simp)) (fun p hp => ?_) r
    obtain ⟨word, hword, rfl⟩ := List.mem_map.1 hp
    exact hfree word (by simp [hword])
  · rw [choiceField, Spelling.text, headText, List.append_assoc]
    exact FieldHead.takesAnd hname _
  · rw [← closesAll_parentheses, choiceField, Spelling.text, parentheses_append,
      parentheses_head hname, parentheses_cons, parentheses_append, parentheses_append,
      parentheses_disjunction hwords]
    simp [Gap.empty, parentheses_cons, closesAll]

end Fields

/-! ### Chains of elements -/

/-- Elements side by side, with a blank between neighbours. -/
def juxtaposition (first : Spelling .element) : List (Spelling .element) → Spelling .chain
  | [] => .single (.bare first)
  | second :: rest => .linked (.bare first) (.beside .one) (juxtaposition second rest)

/-- A chain with alternatives in front of it, each with `OR` behind it. -/
def withAlternatives (terms : List (Spelling .element)) (chain : Spelling .chain) :
    Spelling .chain :=
  terms.foldr (fun term chain => .linked (.bare term) (.or .one .one) chain) chain

section Chains
variable {first : Spelling .element} {rest terms : List (Spelling .element)}
  {chain : Spelling .chain}

lemma text_juxtaposition (first : Spelling .element) (rest : List (Spelling .element)) :
    (juxtaposition first rest).text = first.text ++ rest.flatMap fun p => ' ' :: p.text := by
  induction rest generalizing first with
  | nil => simp [juxtaposition, Spelling.text]
  | cons second rest ih => simp [juxtaposition, Spelling.text, ih, Link.text, Gap.one]

lemma text_withAlternatives (terms : List (Spelling .element)) (chain : Spelling .chain) :
    (withAlternatives terms chain).text =
      terms.flatMap (fun p => p.text ++ " OR ".toList) ++ chain.text := by
  induction terms with
  | nil => rfl
  | cons term terms ih =>
    rw [withAlternatives, List.foldr_cons, ← withAlternatives, Spelling.text, ih]
    simp [Spelling.text, Link.text, Gap.one]

lemma valid_juxtaposition (h : ∀ p ∈ first :: rest, p.Standalone) :
    (juxtaposition first rest).Valid [] := by
  induction rest generalizing first with
  | nil => exact (h first (by simp)).valid [] rfl rfl
  | cons second rest ih =>
    have hsecond := ih fun p hp => h p (List.mem_cons_of_mem _ hp)
    refine ⟨(h first (by simp)).valid _ (Gap.atWordChar_one _) ?_, ?_, hsecond⟩
    · exact Link.colonAhead _ hsecond.front.2
    · rw [Link.Valid, text_juxtaposition, List.append_assoc]
      exact (h second (by simp)).noAnd _

lemma valid_withAlternatives (h : ∀ p ∈ terms, p.Standalone) (hchain : chain.Valid []) :
    (withAlternatives terms chain).Valid [] := by
  induction terms with
  | nil => exact hchain
  | cons term terms ih =>
    have hrest := ih fun p hp => h p (List.mem_cons_of_mem _ hp)
    refine ⟨(h term (by simp)).valid _ (Gap.atWordChar_one _) ?_, Gap.atWordChar_one _, hrest⟩
    exact Link.colonAhead _ hrest.front.2

lemma closesAll_flatMap {α : Type} {f : α → List Char} {l : List α}
    (h : ∀ a ∈ l, closesAll 0 (f a) = true) : closesAll 0 (l.flatMap f) = true := by
  induction l with
  | nil => rfl
  | cons a l ih =>
    rw [List.flatMap_cons]
    exact closesAll_append (h a (by simp)) (ih fun b hb => h b (List.mem_cons_of_mem a hb))

lemma balanced_chain (hterms : ∀ p ∈ terms, p.Standalone) (h : ∀ p ∈ first :: rest, p.Standalone) :
    closesAll 0 (withAlternatives terms (juxtaposition first rest)).text = true := by
  rw [text_withAlternatives, text_juxtaposition]
  refine closesAll_append (closesAll_flatMap fun p hp => ?_)
    (closesAll_append (h first (by simp)).balanced (closesAll_flatMap fun p hp => ?_))
  · have hor : closesAll 0 " OR ".toList = true := by decide
    exact closesAll_append (hterms p hp).balanced hor
  · exact (h p (List.mem_cons_of_mem first hp)).balanced

/-! ### Trees of chains -/

/-- The tree of a spelling, wherever it stands. -/
def Spelling.shape {k : Rank} (p : Spelling k) : Tree := (p.tree 0 []).withoutSpans

lemma Spelling.withoutSpans_tree {k : Rank} (p : Spelling k) (total : Nat) (r : List Char) :
    (p.tree total r).withoutSpans = p.shape :=
  Joined.withoutSpans_tree_congr
    ((p.joined_plain total 0 r []).symm.trans (p.joined_plain 0 0 [] []))

lemma Spelling.joined_element (p : Spelling .element) (total : Nat) (r : List Char) :
    (p.joined total r).map Tree.withoutSpans = .single p.shape := by
  rw [← p.withoutSpans_tree total r]
  cases p <;> rfl

/-- The alternatives of a chain, wherever it stands. -/
def Spelling.choices (chain : Spelling .chain) (total : Nat) (r : List Char) : List Tree :=
  ((chain.joined total r).map Tree.withoutSpans).alternatives

lemma Spelling.withoutSpans_eq_choices (chain : Spelling .chain) (total : Nat) (r : List Char) :
    (chain.tree total r).withoutSpans = Tree.ofOperands .or (chain.choices total r) := by
  rw [Spelling.tree, Joined.tree_map withoutSpans_operation]
  rfl

lemma choices_or (term : Spelling .element) (chain : Spelling .chain) (total : Nat)
    (r : List Char) :
    (Spelling.linked (.bare term) (.or .one .one) chain).choices total r =
      term.shape :: chain.choices total r := by
  rw [Spelling.choices, Spelling.joined, Link.attach_map withoutSpans_operation]
  exact congrArg (· :: chain.choices total r) (term.withoutSpans_tree _ _)

lemma choices_disjunction (first : Spelling .element) (rest : List (Spelling .element))
    (total : Nat) (r : List Char) : (disjunction first rest).choices total r =
      (first :: rest).map Spelling.shape := by
  induction rest generalizing first with
  | nil =>
    rw [Spelling.choices, disjunction, Spelling.joined, Spelling.joined, Spelling.joined_element]
    rfl
  | cons second rest ih =>
    rw [disjunction, choices_or, ih]
    rfl

lemma choices_withAlternatives (terms : List (Spelling .element)) (chain : Spelling .chain)
    (total : Nat) (r : List Char) : (withAlternatives terms chain).choices total r =
      terms.map Spelling.shape ++ chain.choices total r := by
  induction terms with
  | nil => rfl
  | cons term terms ih =>
    rw [withAlternatives, List.foldr_cons, ← withAlternatives, choices_or, ih]
    rfl

lemma joined_juxtaposition (first : Spelling .element) (rest : List (Spelling .element))
    (total : Nat) (r : List Char) :
    ((juxtaposition first rest).joined total r).map Tree.withoutSpans =
      ⟨[first.shape], rest.map Spelling.shape, []⟩ := by
  induction rest generalizing first with
  | nil => exact first.joined_element total r
  | cons second rest ih =>
    rw [juxtaposition, Spelling.joined, Link.attach_map withoutSpans_operation, ih]
    exact congrArg (fun tree => Joined.mk [tree] _ []) (first.withoutSpans_tree _ _)

lemma choices_juxtaposition (first : Spelling .element) (rest : List (Spelling .element))
    (total : Nat) (r : List Char) : (juxtaposition first rest).choices total r =
      [Tree.ofOperands .implicit (first.shape :: rest.map Spelling.shape)] := by
  rw [Spelling.choices, joined_juxtaposition]
  rfl

lemma shape_choiceField (name first : String) (rest : List String) :
    (choiceField name first rest).shape =
      .field name (.fieldGroup (Tree.ofOperands .or ((first :: rest).map Tree.word))) ⟨0, 0⟩ := by
  have hvalue := (disjunction (.atom none (.word first))
    (rest.map fun word => .atom none (.word word))).withoutSpans_eq_choices 0 [')']
  have hshapes : ((.atom none (.word first)) :: rest.map fun word => .atom none (.word word)).map
      Spelling.shape = (first :: rest).map Tree.word := by
    rw [List.map_cons, List.map_map, List.map_cons]
    rfl
  rw [choices_disjunction, hshapes] at hvalue
  exact congrArg (fun tree => Tree.field name (.fieldGroup tree) ⟨0, 0⟩) hvalue

/-- Of alternatives and a juxtaposition behind the last `OR`, the juxtaposition is one alternative.
-/
theorem parse_withAlternatives {query : String}
    (hquery : query.toList = (withAlternatives terms (juxtaposition first rest)).text)
    (hterms : ∀ p ∈ terms, p.Standalone) (h : ∀ p ∈ first :: rest, p.Standalone) :
    ∃ tree, Tree.parse query = .ok tree ∧ tree.withoutSpans = Tree.ofOperands .or
      (terms.map Spelling.shape ++
        [Tree.ofOperands .implicit (first.shape :: rest.map Spelling.shape)]) := by
  have hvalid := valid_withAlternatives hterms (valid_juxtaposition h)
  have hbalanced : parenthesesMatch query = true := by
    rw [parenthesesMatch, hquery]
    exact balanced_chain hterms h
  refine ⟨_, Spelling.parse .empty .empty _ (by simpa [Gap.empty] using hquery) hvalid hbalanced,
    ?_⟩
  rw [Spelling.withoutSpans_eq_choices, choices_withAlternatives, choices_juxtaposition]

end Chains

end SkyResolver.Query
