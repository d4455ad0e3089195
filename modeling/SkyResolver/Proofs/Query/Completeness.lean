import SkyResolver.Proofs.Query.Alternatives

/-! What is left to expand in an expanded query. The query around the clauses keeps its fields, and
the groups in the places of the clauses bring in the clauses of their variants and no others; so an
expansion is complete exactly when no variant has a clause, and then expanding again changes
nothing. -/
namespace SkyResolver.Query
open SkyResolver.Text

/-- The variants of a clause: the one for the full text, and one for each target. -/
def clauseVariants (clause : Clause) (names : List String) (targets : List Catalog)
    (identification : Identification) : List (List Char) :=
  renameHead "=abs:".toList clause.text.toList ::
    targets.map (catalogVariant clause names identification)

section Expansion
variable {names : List String} {targets : List Catalog} {identification : Identification}

/-- Where the variants of a clause are queries, its expansion is a group with their clauses. -/
lemma exists_clauseExpansion_of_variants {clause : Clause}
    (h : ∀ s ∈ clauseVariants clause names targets identification, ∃ tree,
      Tree.ofChars? s = some tree) :
    ∃ inner : Spelling .chain, inner.Valid [] ∧ '(' :: (inner.text ++ [')']) =
        (clauseExpansion clause names targets identification).toList ∧
      (inner.Clear ↔ ∀ s ∈ clauseVariants clause names targets identification, ∀ tree,
        Tree.ofChars? s = some tree → tree.objectFields = []) := by
  obtain ⟨layout, hclear⟩ := exists_layout_join h
  exact ⟨layout.restricted, layout.valid_restricted, layout.text_restricted,
    Layout.clear_restricted.trans hclear⟩

/-- Where every clause is found in its place and the variants of the clauses are queries by
themselves, the expansion is spelled validly, and its clauses are those of the variants. -/
lemma exists_expanded {query : String} {extraction : Extraction}
    (h : Extraction.ofQuery query = .ok extraction)
    (hplaces : FoundInPlace query.toList
      (fun clause => clauseExpansion clause names targets identification) extraction.clauses)
    (hvariants : ∀ clause ∈ extraction.clauses,
      ∀ s ∈ clauseVariants clause names targets identification, ∃ tree,
      Tree.ofChars? s = some tree) :
    ∃ (before after : Gap) (p : Spelling .chain),
      (expandQuery query extraction.clauses names targets identification).toList =
          before.chars ++ (p.text ++ after.chars) ∧
        p.Valid after.chars ∧ (p.Clear ↔ ∀ clause ∈ extraction.clauses,
          ∀ s ∈ clauseVariants clause names targets identification, ∀ tree,
          Tree.ofChars? s = some tree →
            tree.objectFields = []) := by
  obtain ⟨before, after, q, spliced, hquery, hvalid, hclauses, hspliced, -, hiff⟩ :=
    exists_spliced h
    (fun clause => clauseExpansion clause names targets identification)
    fun clause => withinAstronomy_cons _
  have : Nonempty (Spelling .chain) := ⟨q⟩
  have hinner : ∀ x ∈ q.objectFields after.chars, ∃ inner : Spelling .chain, inner.Valid [] ∧
      '(' :: (inner.text ++ [')']) = (clauseExpansion (clauseAt (byteLength query.toList) x.1 x.2)
        names targets identification).toList ∧
      (inner.Clear ↔ ∀ s ∈ clauseVariants (clauseAt (byteLength query.toList) x.1 x.2) names targets
        identification, ∀ tree, Tree.ofChars? s = some tree → tree.objectFields = []) := by
    intro x hx
    refine exists_clauseExpansion_of_variants (hvariants _ ?_)
    rw [hclauses]
    exact List.mem_map_of_mem hx
  choose! group hgroup using hinner
  let inner : Spelling .element → List Char → Spelling .chain := fun field t => group (field, t)
  refine ⟨before, after, q.enclosed inner after.chars, ?_, ?_, ?_⟩
  · rw [Spelling.text_enclosed inner (fun field t => (clauseExpansion
      (clauseAt (byteLength query.toList) field t) names targets identification).toList) q
      after.chars
      fun x hx => (hgroup x hx).2.1, ← hspliced]
    exact hiff.2 hplaces
  · exact (Spelling.Revises.enclosed_fields inner q after.chars fun x hx t =>
      (hgroup x hx).1.inert (.closing .empty t)).1.valid hvalid (.refl _) fun _ => .refl _
  · rw [Spelling.clear_enclosed, hclauses, List.forall_mem_map]
    exact forall₂_congr fun x hx => (hgroup x hx).2.2

lemma clauses_expandQuery_eq_nil_iff {query : String} {extraction : Extraction}
    (h : Extraction.ofQuery query = .ok extraction)
    (hplaces : FoundInPlace query.toList
      (fun clause => clauseExpansion clause names targets identification) extraction.clauses)
    (hvariants : ∀ clause ∈ extraction.clauses,
      ∀ s ∈ clauseVariants clause names targets identification, ∃ tree, Tree.ofChars? s = some tree)
    {tree : Tree}
    (htree : Tree.parse (expandQuery query extraction.clauses names targets identification) =
      .ok tree) :
    tree.objectFields = [] ↔ ∀ clause ∈ extraction.clauses,
      ∀ s ∈ clauseVariants clause names targets identification, ∀ tree,
      Tree.ofChars? s = some tree →
        tree.objectFields = [] := by
  obtain ⟨before, after, p, htext, hp, hclear⟩ := exists_expanded h hplaces hvariants
  have hparse := Spelling.parse before after p htext hp (parse_eq_ok.1 htree).1
  obtain rfl := Except.ok.inj (htree.symm.trans hparse)
  rw [← Spelling.clear_iff_tree, hclear]

/-- It is accepted if and only if its parentheses match. -/
lemma parse_expandQuery_iff_of_variants {query : String} {extraction : Extraction}
    (h : Extraction.ofQuery query = .ok extraction)
    (hplaces : FoundInPlace query.toList
      (fun clause => clauseExpansion clause names targets identification) extraction.clauses)
    (hvariants : ∀ clause ∈ extraction.clauses,
      ∀ s ∈ clauseVariants clause names targets identification, ∃ tree,
      Tree.ofChars? s = some tree) :
    (∃ tree, Tree.parse (expandQuery query extraction.clauses names targets identification) =
      .ok tree) ↔
      parenthesesMatch (expandQuery query extraction.clauses names targets identification) =
        true := by
  obtain ⟨before, after, p, htext, hp, -⟩ := exists_expanded h hplaces hvariants
  constructor
  · rintro ⟨tree, htree⟩
    exact (parse_eq_ok.1 htree).1
  · intro hbalanced
    exact ⟨_, Spelling.parse before after p htext hp hbalanced⟩

lemma exists_tree_of_free {p : Spelling .element} (hfree : p.Free)
    (hclear : p.objectFields [] = []) :
    ∃ tree, Tree.ofChars? p.text = some tree ∧ tree.objectFields = [] := by
  have hchars := Spelling.ofChars? .empty .empty (p := .single (.bare p))
    (hfree [] (.refl []) (.refl []))
  rw [Gap.empty, List.append_nil, List.nil_append] at hchars
  exact ⟨_, hchars, (Spelling.clear_iff_tree (p := .single (.bare p)) _ _).1 hclear⟩

/-- Where the passes over a clause find what is in its tree, its variants are queries without
clauses. -/
lemma exists_tree_of_fits {clause : Clause} {p : Spelling .element}
    (hid : ∀ catalog name id, identification catalog name = some id → IsNumeral id)
    (hp : p.Valid []) (htext : p.text = clause.text.toList) (hfits : p.Fits names targets) :
    ∀ s ∈ clauseVariants clause names targets identification,
      ∃ tree, Tree.ofChars? s = some tree ∧ tree.objectFields = [] := by
  intro s hs
  rcases List.mem_cons.1 hs with rfl | hs
  · rw [renameHead_fullText hp htext hfits.heads]
    exact exists_tree_of_free (hp.renamed "=abs" (by decide))
      (p.objectFields_renamed (by decide) [])
  · obtain ⟨catalog, hcatalog, rfl⟩ := List.mem_map.1 hs
    obtain ⟨p', hp', hfree, hclear⟩ := exists_catalogVariant hid hp htext hfits hcatalog
    rw [← hp']
    exact exists_tree_of_free hfree hclear

lemma expandQuery_nil (query : String) :
    expandQuery query [] names targets identification = query := rfl

/-- Where every clause is found in its place, an accepted expansion is complete if the passes over
the clauses find what is in their trees, and then expanding again gives the same. They need not find
that: as long as the variants of the clauses are queries by themselves, what is left are the clauses
of the variants. -/
theorem expandQuery_complete {query : String} {extraction : Extraction}
    (h : Extraction.ofQuery query = .ok extraction)
    (hid : ∀ catalog name id, identification catalog name = some id → IsNumeral id)
    (hplaces : FoundInPlace query.toList
      (fun clause => clauseExpansion clause names targets identification) extraction.clauses)
    {tree : Tree}
    (htree : Tree.parse (expandQuery query extraction.clauses names targets identification) =
      .ok tree) :
    ∃ again, Extraction.ofQuery
        (expandQuery query extraction.clauses names targets identification) = .ok again ∧
      ((∀ clause ∈ extraction.clauses, ∃ p : Spelling .element,
          p.Valid [] ∧ p.text = clause.text.toList ∧ p.Fits names targets) → again.clauses = []) ∧
      ((∀ clause ∈ extraction.clauses, ∀ s ∈ clauseVariants clause names targets identification,
          ∃ tree, Tree.ofChars? s = some tree) →
        (again.clauses = [] ↔ ∀ clause ∈ extraction.clauses,
          ∀ s ∈ clauseVariants clause names targets identification, ∀ tree,
            Tree.ofChars? s = some tree → tree.objectFields = [])) ∧
      (again.clauses = [] → ∀ names' targets' identification',
        expandQuery (expandQuery query extraction.clauses names targets identification)
          again.clauses names' targets' identification' =
            expandQuery query extraction.clauses names targets identification) := by
  have hclauses : ∀ q : String, (Extraction.ofTree q tree).clauses = [] ↔ tree.objectFields = [] :=
    fun q => by rw [Extraction.ofTree, List.map_eq_nil_iff]
  refine ⟨_, by rw [Extraction.ofQuery, htree]; rfl, fun hfits => ?_, fun hvariants => ?_,
    fun hnone names' targets' identification' => ?_⟩
  · have hreads : ∀ clause ∈ extraction.clauses,
        ∀ s ∈ clauseVariants clause names targets identification,
          ∃ tree, Tree.ofChars? s = some tree ∧ tree.objectFields = [] := by
      intro clause hclause
      obtain ⟨p, hp, htext, hfits⟩ := hfits clause hclause
      exact exists_tree_of_fits hid hp htext hfits
    rw [hclauses, clauses_expandQuery_eq_nil_iff h hplaces (fun clause hclause s hs =>
      (hreads clause hclause s hs).imp fun _ => And.left) htree]
    intro clause hclause s hs tree htree
    obtain ⟨tree', htree', hfields⟩ := hreads clause hclause s hs
    cases htree.symm.trans htree'
    exact hfields
  · rw [hclauses]
    exact clauses_expandQuery_eq_nil_iff h hplaces hvariants htree
  · rw [hnone, expandQuery_nil]

end Expansion

theorem expandQuery_complete_of_field :
    Extraction.ofQuery "x OR object:b" = .ok ⟨["b"], [⟨"object:b", ⟨5, 13⟩, ["b"]⟩]⟩ ∧
    ∃ again, Extraction.ofQuery (expandQuery "x OR object:b" [⟨"object:b", ⟨5, 13⟩, ["b"]⟩] ["b"]
        [.simbad] fun _ _ => some "12") = .ok again ∧
      again.clauses = [] ∧
      expandQuery (expandQuery "x OR object:b" [⟨"object:b", ⟨5, 13⟩, ["b"]⟩] ["b"] [.simbad]
          fun _ _ => some "12") again.clauses ["b"] [.simbad] (fun _ _ => some "12") =
        expandQuery "x OR object:b" [⟨"object:b", ⟨5, 13⟩, ["b"]⟩] ["b"] [.simbad]
          fun _ _ => some "12" := by
  have h : Extraction.ofQuery "x OR object:b" = .ok ⟨["b"], [⟨"object:b", ⟨5, 13⟩, ["b"]⟩]⟩ := by
    rw [Extraction.ofQuery, Spelling.parse .empty .empty
      (.linked (.bare (.atom none (.word "x"))) (.or .one .one)
        (.single (.bare (.atom (some ⟨"object", .empty, .empty⟩) (.word "b")))))
      rfl (by decide) rfl]
    exact congrArg Except.ok (by decide)
  have hplaces : FoundInPlace "x OR object:b".toList
      (fun clause => clauseExpansion clause ["b"] [.simbad] fun _ _ => some "12")
      [⟨"object:b", ⟨5, 13⟩, ["b"]⟩] := by
    intro i clause hclause s hs
    cases i with
    | zero =>
      obtain rfl := by simpa using hclause
      obtain rfl := by simpa [editsOf, replaceSpans?] using hs
      decide +kernel
    | succ i => simp at hclause
  have hexpanded : Tree.parse (expandQuery "x OR object:b" [⟨"object:b", ⟨5, 13⟩, ["b"]⟩] ["b"]
      [.simbad] fun _ _ => some "12") = .ok _ :=
    Spelling.parse .empty .empty
      (.linked (.bare (.atom none (.word "x"))) (.or .one .one) (.single (.bare (.group none .empty
        (.linked (.bare (.group none .empty
            (.linked (.bare (.atom (some ⟨"=abs", .empty, .empty⟩) (.word "b"))) (.or .one .one)
              (.single (.bare (.atom (some ⟨"simbid", .empty, .empty⟩) (.word "12"))))) .empty))
          (.beside .one)
          (.single (.bare (.atom (some ⟨"database", .empty, .empty⟩) (.word "astronomy")))))
          .empty))))
      (by decide +kernel) (by decide +kernel) (by decide +kernel)
  obtain ⟨again, hagain, hcomplete, -, hstays⟩ :=
    expandQuery_complete h (by rintro catalog name id ⟨⟩; decide) hplaces hexpanded
  have hnone : again.clauses = [] := by
    refine hcomplete fun clause hclause => ?_
    obtain rfl := List.mem_singleton.1 hclause
    exact ⟨.atom (some ⟨"object", .empty, .empty⟩) (.word "b"), by decide, by decide +kernel,
      by decide +kernel, by decide +kernel⟩
  exact ⟨h, again, hagain, hnone, hstays hnone _ _ _⟩

/-- A clause whose text stands in an earlier phrase is left, and expanding again goes on from there.
-/
theorem expandQuery_of_quoted_clause_again :
    Extraction.ofQuery "\"object:b\" object:b" =
      .ok ⟨["b"], [⟨"object:b", ⟨11, 19⟩, ["b"]⟩]⟩ ∧
    expandQuery "\"object:b\" object:b" [⟨"object:b", ⟨11, 19⟩, ["b"]⟩] ["b"] [.simbad]
      (fun _ _ => none) = "\"((=abs:b OR simbid:0) database:astronomy)\" object:b" ∧
    Extraction.ofQuery "\"((=abs:b OR simbid:0) database:astronomy)\" object:b" =
      .ok ⟨["b"], [⟨"object:b", ⟨44, 52⟩, ["b"]⟩]⟩ ∧
    expandQuery "\"((=abs:b OR simbid:0) database:astronomy)\" object:b"
        [⟨"object:b", ⟨44, 52⟩, ["b"]⟩] ["b"] [.simbad] (fun _ _ => none) ≠
      "\"((=abs:b OR simbid:0) database:astronomy)\" object:b" := by
  refine ⟨?_, by decide +kernel, ?_, by decide +kernel⟩
  · rw [Extraction.ofQuery, Spelling.parse .empty .empty
      (.linked (.bare (.atom none (.phrase "\"object:b\""))) (.beside .one)
        (.single (.bare (.atom (some ⟨"object", .empty, .empty⟩) (.word "b")))))
      rfl (by decide +kernel) rfl]
    exact congrArg Except.ok (by decide)
  · rw [Extraction.ofQuery, Spelling.parse .empty .empty
      (.linked (.bare (.atom none (.phrase "\"((=abs:b OR simbid:0) database:astronomy)\"")))
        (.beside .one) (.single (.bare (.atom (some ⟨"object", .empty, .empty⟩) (.word "b")))))
      rfl (by decide +kernel) (by decide +kernel)]
    exact congrArg Except.ok (by decide +kernel)

end SkyResolver.Query
