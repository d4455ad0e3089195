import SkyResolver.Proofs.Query.Completeness
import SkyResolver.Proofs.Query.Exchange

/-! Validity of expanded queries. Heads are exchanged and names are replaced in the text of a
clause; where the names stand well on its tokens, each variant is a query again, and so is the whole
if its parentheses match. -/
namespace SkyResolver.Query
open SkyResolver.Text

/-- In the clause for each target, the names stand well on the tokens; no field but `object` ends in
`-object`, and no word could be taken for an `AND`. -/
structure Spelling.Suits (p : Spelling .element) (names : List String) (targets : List Catalog) :
    Prop where
  fields : ∀ head, .head head ∈ p.tokens → endsInObject head.name = false
  words : ∀ word ∈ p.looseWords, ¬['&', '&'] <+: word.toList
  names : ∀ catalog ∈ targets,
    StandOn names StandsWell [] (Token.groundOf (exchangedTokens catalog.field none p.tokens))

section Variants
variable {clause : Clause} {p : Spelling .element} {names : List String} {targets : List Catalog}
  {identification : Identification}

lemma isFreeName_field (catalog : Catalog) : IsFreeName catalog.field := by
  cases catalog <;> exact ⟨by decide, by decide, by decide⟩

lemma isFreeName_fullText : IsFreeName "=abs" := ⟨by decide, by decide, by decide⟩

/-- The clause with its heads exchanged is a query. -/
lemma Spelling.Suits.exchanged (hp : p.Valid []) (hsuits : p.Suits names targets) {field : String}
    (hfield : IsFreeName field) : renameHead (objectHead field) p.text =
        Token.textOf (exchangedTokens field none p.tokens) ∧
      Completes .operand 0 (exchangedTokens field none p.tokens) := by
  have h : Completes .operand 0 (p.tokens ++ []) := hp.completes hsuits.words .nil
  rw [List.append_nil] at h
  have := h.exchanged hfield hsuits.fields none
  rwa [Spelling.textOf_tokens] at this

/-- Where names stand well on the tokens of a clause, its variants are queries. -/
theorem exists_tree_of_suits
    (hid : ∀ catalog name id, identification catalog name = some id → IsNumeral id)
    (hp : p.Valid []) (htext : p.text = clause.text.toList) (hsuits : p.Suits names targets) :
    ∀ s ∈ clauseVariants clause names targets identification, ∃ tree, Tree.ofChars? s =
      some tree := by
  intro s hs
  rw [clauseVariants, ← htext] at hs
  rcases List.mem_cons.1 hs with rfl | hs
  · obtain ⟨hexchanged, hcompletes⟩ := hsuits.exchanged hp isFreeName_fullText
    rw [show "=abs:".toList = objectHead "=abs" from rfl, hexchanged]
    exact hcompletes.exists_tree
  · obtain ⟨catalog, hcatalog, rfl⟩ := List.mem_map.1 hs
    obtain ⟨hexchanged, hcompletes⟩ := hsuits.exchanged hp (isFreeName_field catalog)
    have hhead : catalog.fieldHead.toList = objectHead catalog.field := by
      rw [Catalog.fieldHead, String.toList_append]
      rfl
    rw [catalogVariant, ← htext, hhead, hexchanged]
    exact hcompletes.exists_tree_replaced (identifierOf_digits (hid catalog))
      (hsuits.names catalog hcatalog)

end Variants

/-- Where every clause is found in its place and the names stand well on the tokens of the clauses,
the expansion of a query is accepted if and only if its parentheses match. -/
theorem parse_expandQuery_iff {query : String} {extraction : Extraction}
    (h : Extraction.ofQuery query = .ok extraction) {names : List String} {targets : List Catalog}
    {identification : Identification}
    (hid : ∀ catalog name id, identification catalog name = some id → IsNumeral id)
    (hplaces : FoundInPlace query.toList
      (fun clause => clauseExpansion clause names targets identification) extraction.clauses)
    (hsuits : ∀ clause ∈ extraction.clauses, ∃ p : Spelling .element,
      p.Valid [] ∧ p.text = clause.text.toList ∧ p.Suits names targets) :
    (∃ tree, Tree.parse (expandQuery query extraction.clauses names targets identification) =
      .ok tree) ↔
      parenthesesMatch (expandQuery query extraction.clauses names targets identification) =
        true := by
  refine parse_expandQuery_iff_of_variants h hplaces fun clause hclause => ?_
  obtain ⟨p, hp, htext, hsuits⟩ := hsuits clause hclause
  exact exists_tree_of_suits hid hp htext hsuits

/-- A name that is a phrase in one clause and two words in another one. -/
def ngc : String := "object:(\"a object:b\" OR \"NGC 1\") object:(NGC 1)"

def ngcNames : List String := ["a object:b", "NGC 1", "NGC", "1"]

def ngcClauses : List Clause :=
  [⟨"object:(\"a object:b\" OR \"NGC 1\")", ⟨0, 32⟩, ["a object:b", "NGC 1"]⟩,
    ⟨"object:(NGC 1)", ⟨33, 47⟩, ["NGC", "1"]⟩]

lemma longestFirst_ngcNames : longestFirst ngcNames =
    ["a object:b".toList, "NGC 1".toList, "NGC".toList, "1".toList] := by
  rw [longestFirst, List.mergeSort_of_pairwise (by decide +kernel)]
  rfl

theorem parse_expandQuery_iff_of_ngc :
    Extraction.ofQuery ngc = .ok ⟨ngcNames, ngcClauses⟩ ∧
    ∃ tree, Tree.parse (expandQuery ngc ngcClauses ngcNames [.simbad] fun _ _ => none) =
      .ok tree := by
  let first : Spelling .element := .group (some ⟨"object", .empty, .empty⟩) .empty
    (.linked (.bare (.atom none (.phrase "\"a object:b\""))) (.or .one .one)
      (.single (.bare (.atom none (.phrase "\"NGC 1\""))))) .empty
  let second : Spelling .element := .group (some ⟨"object", .empty, .empty⟩) .empty
    (.linked (.bare (.atom none (.word "NGC"))) (.beside .one)
      (.single (.bare (.atom none (.word "1"))))) .empty
  have h : Extraction.ofQuery ngc = .ok ⟨ngcNames, ngcClauses⟩ := by
    rw [Extraction.ofQuery, Spelling.parse .empty .empty
      (.linked (.bare first) (.beside .one) (.single (.bare second))) rfl (by decide +kernel)
      (by decide +kernel)]
    exact congrArg Except.ok (by decide +kernel)
  refine ⟨h, (parse_expandQuery_iff h (by simp) ?_ ?_).2 ?_⟩
  · unfold clauseExpansion catalogVariant replaceNames
    rw [longestFirst_ngcNames]
    decide +kernel
  · refine List.forall_mem_cons.2 ⟨?_, List.forall_mem_cons.2 ⟨?_, by simp⟩⟩
    · exact ⟨first, by decide +kernel, by decide +kernel,
        by simp [first, Spelling.tokens, headTokens, Gap.tokens, Gap.empty, Gap.one,
          Link.tokens]; decide,
        by decide, by decide +kernel⟩
    · exact ⟨second, by decide +kernel, by decide +kernel,
        by simp [second, Spelling.tokens, headTokens, Gap.tokens, Gap.empty, Gap.one,
          Link.tokens]; decide,
        by decide, by decide +kernel⟩
  · unfold expandQuery clauseExpansion catalogVariant replaceNames
    rw [longestFirst_ngcNames]
    decide +kernel

/-- A parenthesis in a phrase of a clause is written once for each variant. -/
theorem expandQuery_of_quoted_parenthesis :
    Extraction.ofQuery "object:(title:\"(\" OR b) x:\")\"" =
      .ok ⟨["b"], [⟨"object:(title:\"(\" OR b)", ⟨0, 23⟩, ["b"]⟩]⟩ ∧
    ∃ expanded, expandQuery "object:(title:\"(\" OR b) x:\")\""
        [⟨"object:(title:\"(\" OR b)", ⟨0, 23⟩, ["b"]⟩] ["b"] [.simbad] (fun _ _ => none) =
          expanded ∧
      Tree.parse expanded = .error (.unbalanced expanded) := by
  refine ⟨?_, _, rfl, if_neg (by decide +kernel)⟩
  rw [Extraction.ofQuery, Spelling.parse .empty .empty
    (.linked (.bare (.group (some ⟨"object", .empty, .empty⟩) .empty
        (.linked (.bare (.atom (some ⟨"title", .empty, .empty⟩) (.phrase "\"(\""))) (.or .one .one)
          (.single (.bare (.atom none (.word "b"))))) .empty)) (.beside .one)
      (.single (.bare (.atom (some ⟨"x", .empty, .empty⟩) (.phrase "\")\"")))))
    rfl (by decide +kernel) rfl]
  exact congrArg Except.ok (by decide +kernel)

end SkyResolver.Query
