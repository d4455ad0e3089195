import SkyResolver.Ned.Listing
import SkyResolver.Simbad.Rows
import SkyResolver.Proofs.Query.LooseWords
import SkyResolver.Proofs.Service.ConeSearch
import SkyResolver.Proofs.Service.Publications

/-! The query of a cone search. Identifiers stand in it as they are, with nothing escaped or quoted;
so it means them if each is a word of the query language by itself. Numbers are, but names of NED
need not be. -/
namespace SkyResolver
open SkyResolver.Query SkyResolver.Text

/-- The tree that means some identifiers: for each catalog a field with the words that they are. -/
def documentsTree (identifiers : List (Catalog × List String)) : Tree :=
  Tree.ofOperands .or (identifiers.map fun (catalog, ids) =>
    .field catalog.field (.fieldGroup (Tree.ofOperands .or (ids.map .word))) ⟨0, 0⟩)

/-- The identifiers of a catalog as they are spelled. -/
def identifiersField (entry : Catalog × List String) : Spelling .element :=
  choiceField entry.1.field (entry.2.headD "") entry.2.tail

section Documents
variable {entry : Catalog × List String} {identifiers : List (Catalog × List String)}

lemma text_identifiersField (h : entry.2 ≠ []) :
    (identifiersField entry).text = (Index.fieldQuery entry.1.field entry.2).toList := by
  obtain ⟨catalog, ids⟩ := entry
  obtain ⟨first, rest, rfl⟩ := List.exists_cons_of_ne_nil h
  simp [identifiersField, text_choiceField, Index.fieldQuery]

lemma shape_identifiersField (h : entry.2 ≠ []) : (identifiersField entry).shape =
    .field entry.1.field (.fieldGroup (Tree.ofOperands .or (entry.2.map .word))) ⟨0, 0⟩ := by
  obtain ⟨catalog, ids⟩ := entry
  obtain ⟨first, rest, rfl⟩ := List.exists_cons_of_ne_nil h
  exact shape_choiceField _ _ _

lemma identifiersField_free (h : entry.2 ≠ []) (hwords : ∀ id ∈ entry.2, IsTerm false id.toList) :
    (identifiersField entry).Free := by
  obtain ⟨catalog, ids⟩ := entry
  obtain ⟨first, rest, rfl⟩ := List.exists_cons_of_ne_nil h
  have hfree : ∀ word ∈ first :: rest, (Spelling.atom none (.word word)).Free :=
    fun word hword r hcalm _ => ⟨by simp, hwords word hword, hcalm.word rfl, hcalm.colon rfl⟩
  intro r _ _
  refine ⟨fun head hhead => ?_, valid_disjunction (hfree first (by simp)) (fun p hp => ?_) r⟩
  · obtain rfl := Option.mem_some.1 hhead
    exact isFieldName_field catalog
  · obtain ⟨word, hword, rfl⟩ := List.mem_map.1 hp
    exact hfree word (List.mem_cons_of_mem first hword)

lemma text_documentsQuery (hids : ∀ e ∈ entry :: identifiers, e.2 ≠ []) :
    (disjunction (identifiersField entry) (identifiers.map identifiersField)).text =
      (documentsQuery (entry :: identifiers)).toList := by
  have htexts : (entry :: identifiers).map (fun e => (identifiersField e).text) =
      (entry :: identifiers).map fun e => (Index.fieldQuery e.1.field e.2).toList :=
    List.map_congr_left fun e he => text_identifiersField (hids e he)
  rw [text_disjunction, List.map_map]
  change join _ ((entry :: identifiers).map fun e => (identifiersField e).text) = _
  rw [htexts, documentsQuery, String.toList_intercalate, List.map_map]
  rfl

lemma looseWords_documentsTree :
    (documentsTree identifiers).looseWords = identifiers.flatMap Prod.snd := by
  have hfield : ∀ e : Catalog × List String, (Tree.field e.1.field (.fieldGroup
      (Tree.ofOperands .or (e.2.map .word))) ⟨0, 0⟩).looseWords = e.2 := fun e => by
    rw [Tree.looseWords, gather_ofOperands Tree.looseWords_operation, List.flatMap_map]
    simp [Tree.looseWords]
  rw [documentsTree, gather_ofOperands Tree.looseWords_operation, List.flatMap_map]
  exact List.flatMap_congr fun e _ => hfield e

/-- The query for documents means its identifiers if and only if each is a word by itself and the
parentheses in them match. -/
theorem parse_documentsQuery_iff (hne : identifiers ≠ []) (hids : ∀ e ∈ identifiers, e.2 ≠ []) :
    (∃ tree, Tree.parse (documentsQuery identifiers) = .ok tree ∧
        tree.withoutSpans = documentsTree identifiers) ↔
      (∀ e ∈ identifiers, ∀ id ∈ e.2, IsTerm false id.toList) ∧
        parenthesesMatch (documentsQuery identifiers) = true := by
  constructor
  · rintro ⟨tree, htree, hshape⟩
    obtain ⟨hbalanced, hchars⟩ := parse_eq_ok.1 htree
    obtain ⟨before, after, p, -, hvalid, rfl⟩ := exists_spelling hchars
    refine ⟨fun e he id hid => ?_, hbalanced⟩
    refine hvalid.looseWords (byteLength (documentsQuery identifiers).toList) id ?_
    rw [hshape, looseWords_documentsTree]
    exact List.mem_flatMap.2 ⟨e, he, hid⟩
  · rintro ⟨hwords, hbalanced⟩
    obtain ⟨entry, others, rfl⟩ := List.exists_cons_of_ne_nil hne
    have hfree : ∀ e ∈ entry :: others, (identifiersField e).Free := fun e he =>
      identifiersField_free (hids e he) (hwords e he)
    have hvalid :
        (disjunction (identifiersField entry) (others.map identifiersField)).Valid [] := by
      refine (valid_disjunction (hfree entry (by simp)) (fun p hp => ?_) []).inert .nil
      obtain ⟨e, he, rfl⟩ := List.mem_map.1 hp
      exact hfree e (List.mem_cons_of_mem entry he)
    have htext : (documentsQuery (entry :: others)).toList = Gap.empty.chars ++
        ((disjunction (identifiersField entry) (others.map identifiersField)).text ++
          Gap.empty.chars) := by
      simp [Gap.empty, text_documentsQuery hids]
    refine ⟨_, Spelling.parse .empty .empty _ htext hvalid hbalanced, ?_⟩
    rw [Spelling.withoutSpans_eq_choices, choices_disjunction, documentsTree, ← List.map_cons,
      List.map_map]
    exact congrArg _ (List.map_congr_left fun e he => shape_identifiersField (hids e he))

end Documents

/-! ### Cone searches -/

/-- The query of a successful cone search means its identifiers, catalog by catalog and in their
order, if and only if its parentheses match and each identifier of NED is a word of the query
language by itself. Those of SIMBAD always are if they are numbers. -/
theorem parse_coneQuery_iff {σ : Type} {service : Service σ} {position : Position}
    {session : Session σ} {outcome : ConeOutcome}
    (h : ((service.searchAround position).run.run session).1 = .ok outcome)
    (hsimbad : ∀ ids, (Catalog.simbad, ids) ∈ outcome.identifiers → ∀ id ∈ ids, IsNumeral id) :
    (∃ tree, Tree.parse outcome.query = .ok tree ∧
        tree.withoutSpans = documentsTree outcome.identifiers) ↔
      (∀ ids, (Catalog.ned, ids) ∈ outcome.identifiers → ∀ id ∈ ids,
        Tree.ofChars? id.toList = some (.word id)) ∧ parenthesesMatch outcome.query = true := by
  have hfound : service.coneIdentifiers position session.world ≠ [] ∧
      outcome = service.coneOutcome position session.world := by
    rw [result_searchAround] at h
    split at h
    · cases h
    · exact ⟨‹_›, (Except.ok.inj h).symm⟩
  obtain ⟨hne, rfl⟩ := hfound
  have hids : ∀ e ∈ service.coneIdentifiers position session.world, e.2 ≠ [] := by
    rintro ⟨catalog, ids⟩ he
    obtain ⟨found, hfound, rfl⟩ := mem_coneIdentifiers.1 he
    rw [← distinct_eq_eraseDups]
    exact mt distinct_eq_nil.1 hfound.nonempty
  simp only [Service.coneOutcome] at hsimbad ⊢
  rw [parse_documentsQuery_iff hne hids]
  refine and_congr_left fun _ => ⟨fun hwords ids he id hid => ?_,
    fun hwords ⟨catalog, ids⟩ he id hid => ?_⟩
  · exact ofChars?_eq_word_iff.2 (hwords _ he id hid)
  · cases catalog with
    | simbad => exact (hsimbad ids he id hid).isTerm
    | ned => exact ofChars?_eq_word_iff.1 (hwords ids he id hid)

/-- A catalog that answers every cone search alike. -/
def CatalogClient.seeing (found : List String) : CatalogClient Unit where
  maxRadius := 1.0
  maxResults := 10
  timeout := .ofSeconds 1
  names _ := pure .late
  lookup _ := pure .late
  identifiers _ := pure .late
  cone _ _ _ := pure (.finished (.ok found))

/-- A service that finds the same objects around every position. -/
def Service.seeing (found : Catalog → List String) : Service Unit where
  targets := Catalog.all
  defaultRadius := 0.1
  catalogs catalog := some (.seeing (found catalog))
  index := none
  verifyCones := false
  currentYear := 2024
  clock _ := 0
  overtaken := List.range

lemma coneIdentifiers_seeing (found : Catalog → List String) (position : Position) (world : Unit) :
    (Service.seeing found).coneIdentifiers position world = Catalog.all.filterMap fun catalog =>
      if found catalog = [] then none else some (catalog, (found catalog).eraseDups) := by
  refine congrArg (fun f => Catalog.all.filterMap f) (funext fun catalog => ?_)
  have hreply : (Service.seeing found).coneReply position world catalog =
      some (.finished (.ok (found catalog))) := rfl
  split
  · rename_i hnone
    rw [hnone] at hreply
    rw [(Service.Withholds.noObjects hreply).conePart]
    rfl
  · rename_i hsome
    rw [(Service.Contributes.mk hreply hsome (by rintro index ⟨⟩)).conePart]
    rfl

lemma result_seeing (found : Catalog → List String) (ids : List (Catalog × List String))
    (hids : (Catalog.all.filterMap fun catalog =>
      if found catalog = [] then none else some (catalog, (found catalog).eraseDups)) = ids)
    (hne : ids ≠ []) (position : Position) (session : Session Unit) :
    (((Service.seeing found).searchAround position).run.run session).1 =
      .ok ⟨position, ids, documentsQuery ids⟩ := by
  subst hids
  rw [← coneIdentifiers_seeing found position session.world] at hne ⊢
  rw [result_searchAround, if_neg hne]
  rfl

/-- The surroundings of a galaxy: an answer of SIMBAD and a listing of NED. -/
def aroundAndromeda : Catalog → List String
  | .simbad => (Simbad.positionIds (.object
      [("data", .array [.array [.number (.int 1575544)], .array [.string "2"]])])).toOption.getD []
  | .ned => Ned.listingIds 10 "No.|Object Name|RA\n1|MESSIER 031|10.68\n"

theorem parse_coneQuery_iff_of_andromeda :
    ∃ outcome, (((Service.seeing aroundAndromeda).searchAround ⟨⟨10.68, 41.27⟩, 0.1⟩).run.run
        ⟨Cache.empty (.ofSeconds 1), ()⟩).1 = .ok outcome ∧
      outcome.identifiers = [(.simbad, ["1575544", "2"]), (.ned, ["MESSIER_031"])] ∧
      ∃ tree, Tree.parse outcome.query = .ok tree ∧
        tree.withoutSpans = documentsTree outcome.identifiers := by
  have hresult := result_seeing aroundAndromeda
    [(.simbad, ["1575544", "2"]), (.ned, ["MESSIER_031"])] (by decide +kernel) (by simp)
    ⟨⟨10.68, 41.27⟩, 0.1⟩ ⟨Cache.empty (.ofSeconds 1), ()⟩
  refine ⟨_, hresult, rfl, (parse_coneQuery_iff hresult ?_).2 ⟨?_, by decide +kernel⟩⟩
  · intro ids hmem
    obtain rfl : ids = ["1575544", "2"] := by simpa using hmem
    decide
  · intro ids hmem
    obtain rfl : ids = ["MESSIER_031"] := by simpa using hmem
    exact List.forall_mem_singleton.2
      (ofChars?_eq_word_iff.2 ((by decide : IsPlainWord "MESSIER_031").isTerm false))

section Bracket
variable {r : List Char}

/-- A bracket that opens no range opens no operand. -/
lemma operandAt_bracket (h : rangeAt ('[' :: r) = none) (total : Nat) :
    operandAt total ('[' :: r) = none := by
  have helement : elementAt total ('[' :: r) = none := by
    have hhead : headAt ('[' :: r) = none := rfl
    have hphrase : phrase? ('[' :: r) = none := rfl
    have hterm : term? false ('[' :: r) = none := rfl
    rw [elementAt_eq, hhead, unnamedAt, enclosedAt_eq, plainAt_eq, h, hphrase, hterm]
    rfl
  have hgap : skipGap ('[' :: r) = '[' :: r := rfl
  have hprefix : prefixAt ('[' :: r) = none := rfl
  rw [operandAt_eq, hgap, hprefix, helement]
  rfl

/-- A group that starts with such a bracket is no value of a field. -/
lemma valueAt_bracket (h : rangeAt ('[' :: r) = none) (total : Nat) :
    valueAt total ('(' :: '[' :: r) = none := by
  have hinside : disjunctsAt total ('[' :: r) = none := by
    rw [disjunctsAt_eq, membersAt_eq, conjunctsAt_eq, operandAt_bracket h]
    rfl
  have hplain : plainAt true ('(' :: '[' :: r) = none := rfl
  simp only [valueAt, enclosedAt_eq, hinside, hplain]
  rfl

/-- The name of a field without a value is read as a word, and nothing can stand at the colon behind
it. -/
lemma ofChars?_bracket (h : rangeAt ('[' :: r) = none) :
    Tree.ofChars? ("nedid:([".toList ++ r) = none := by
  have helement : ∀ total, elementAt total ("nedid:([".toList ++ r) =
      some (.word "nedid", ':' :: '(' :: '[' :: r) := fun total => by
    have hhead : headAt ("nedid:([".toList ++ r) = some ("nedid", '(' :: '[' :: r) := rfl
    have hgap : skipGap ('(' :: '[' :: r) = '(' :: '[' :: r := rfl
    have hclosed : enclosedAt total ("nedid:([".toList ++ r) = none := by
      rw [enclosedAt_eq]
      rfl
    have hplain : plainAt false ("nedid:([".toList ++ r) =
      some (.word "nedid", ':' :: '(' :: '[' :: r) := rfl
    rw [elementAt_eq, hhead, Option.bind_some, hgap, valueAt_bracket h, unnamedAt, hclosed, hplain]
    rfl
  have hoperand : ∀ total, operandAt total ("nedid:([".toList ++ r) =
      some (.word "nedid", ':' :: '(' :: '[' :: r) := fun total => by
    have hgap : skipGap ("nedid:([".toList ++ r) = "nedid:([".toList ++ r := rfl
    have hprefix : prefixAt ("nedid:([".toList ++ r) = none := rfl
    have hplain : Unmodified (':' :: '(' :: '[' :: r) := by
      rintro c ⟨⟩
      decide
    rw [operandAt_eq, hgap, hprefix, helement, Option.map_some, modifiers_of_unmodified hplain]
    rfl
  have hhalts : Halts (skipGap (':' :: '(' :: '[' :: r)) := .inr ⟨_, _, rfl, by simp⟩
  have hand : afterAt .and (':' :: '(' :: '[' :: r) = none := rfl
  have hor : afterAt .or (':' :: '(' :: '[' :: r) = none := rfl
  have hrest : skipGap (':' :: '(' :: '[' :: r) ≠ [] := by simp [skipGap, isGap]
  rw [ofChars?_eq, disjunctsAt_eq, membersAt_eq, conjunctsAt_eq, hoperand]
  simp [moreConjuncts, moreMembers, moreDisjuncts, hand, hor,
    membersAt_eq_none hhalts.startsOperand, hrest]

end Bracket

/-- A listing of an object whose name refers to a survey. -/
def bracketedName : Catalog → List String
  | .simbad => []
  | .ned => Ned.listingIds 10 "No.|Object Name|RA\n1|[HB89] 0039+412|10.6\n"

/-- The brackets of a name make its query unreadable. -/
theorem coneQuery_of_bracketed_name :
    ∃ outcome, (((Service.seeing bracketedName).searchAround ⟨⟨10.68, 41.27⟩, 0.1⟩).run.run
        ⟨Cache.empty (.ofSeconds 1), ()⟩).1 = .ok outcome ∧
      outcome.identifiers = [(.ned, ["[HB89]_0039+412"])] ∧
      outcome.query = "nedid:([HB89]_0039+412)" ∧ Tree.parse outcome.query = .error .malformed := by
  have hresult := result_seeing bracketedName [(.ned, ["[HB89]_0039+412"])] (by decide +kernel)
    (by simp) ⟨⟨10.68, 41.27⟩, 0.1⟩ ⟨Cache.empty (.ofSeconds 1), ()⟩
  have hquery : documentsQuery [(.ned, ["[HB89]_0039+412"])] = "nedid:([HB89]_0039+412)" := by
    decide +kernel
  have hrange : rangeAt ('[' :: "HB89]_0039+412)".toList) = none :=
    Option.isNone_iff_eq_none.1 (by decide +kernel)
  have hnone : Tree.ofChars? "nedid:([HB89]_0039+412)".toList = none := ofChars?_bracket hrange
  refine ⟨_, hresult, rfl, hquery, ?_⟩
  rw [hquery, Tree.parse, hnone, if_pos (by decide +kernel)]

end SkyResolver
