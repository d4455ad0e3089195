import SkyResolver.Service.Publications
import SkyResolver.Proofs.Query.Composition
import SkyResolver.Proofs.Text.Words

/-! The query for publications. Its filters stand behind the last identifier, with nothing around
the identifiers; as `OR` binds looser than juxtaposition, they filter the last identifier only. -/
namespace SkyResolver
open SkyResolver.Query SkyResolver.Text

/-! ### The parts of the query -/

/-- The tree of an identifier of NED. -/
def nedTerm (id : String) : Tree := .field "nedid" (.word id) ⟨0, 0⟩

section Parts
variable (currentYear : Int) (request : PublicationRequest)

def PublicationRequest.years : String :=
  s!"{request.startYear.getD earliestYear}-{request.endYear.getD currentYear}"

/-- The trees of the filters of a request: its years, its journals and its status. -/
def PublicationRequest.filters : List Tree :=
  .field "year" (.word (request.years currentYear)) ⟨0, 0⟩ ::
    ((match request.journals with
      | some (journal :: journals) =>
        [.field "bibstem" (.fieldGroup (Tree.ofOperands .or ((journal :: journals).map .word))) ⟨0,
          0⟩]
      | _ => []) ++
      match request.refereedStatus with
      | some status => [.field "property" (.word status) ⟨0, 0⟩]
      | none => [])

/-- The journals and the status as they are spelled. -/
def PublicationRequest.furtherFields : List (Spelling .element) :=
  (match request.journals with
    | some (journal :: journals) => [choiceField "bibstem" journal journals]
    | _ => []) ++
    match request.refereedStatus with
    | some status => [wordField "property" status]
    | none => []

/-- The spelling of the query. -/
def publicationSpelling (init : List String) (last : String) : Spelling .chain :=
  withAlternatives (init.map (wordField "nedid"))
    (juxtaposition (wordField "nedid" last)
      (wordField "year" (request.years currentYear) :: request.furtherFields))

lemma shape_furtherFields :
    (wordField "year" (request.years currentYear) :: request.furtherFields).map Spelling.shape =
      request.filters currentYear := by
  unfold PublicationRequest.filters PublicationRequest.furtherFields
  rw [List.map_cons, List.map_append]
  congr 2
  · split
    · exact congrArg (fun tree => [tree]) (shape_choiceField _ _ _)
    · rfl
  · split <;> rfl

/-! ### The text of the query -/

lemma text_wordField (name word : String) :
    (wordField name word).text = name.toList ++ ':' :: word.toList := by
  simp [wordField, Spelling.text, headText, FieldHead.text, Atom.text, Gap.empty]

lemma text_choiceField (name first : String) (rest : List String) :
    (choiceField name first rest).text =
      name.toList ++ ":(".toList ++ (" OR ".intercalate (first :: rest)).toList ++ [')'] := by
  have hwords : (rest.map fun word => Spelling.atom none (.word word)).map Spelling.text =
      rest.map String.toList := by
    rw [List.map_map]
    rfl
  rw [choiceField, Spelling.text, text_disjunction, hwords, String.toList_intercalate]
  simp [headText, FieldHead.text, Gap.empty, Spelling.text, Atom.text, join, List.intercalate]

lemma text_publicationSpelling (init : List String) (last : String) :
    (publicationQuery currentYear (init ++ [last]) request).toList =
      (publicationSpelling currentYear request init last).text := by
  have hids :
      (" OR ".intercalate ((init ++ [last]).map fun id => Catalog.ned.fieldHead ++ id)).toList =
      (init.map (wordField "nedid")).flatMap (fun p => p.text ++ " OR ".toList) ++
        (wordField "nedid" last).text := by
    rw [String.toList_intercalate, List.intercalate, ← join, List.map_append, List.map_append,
      List.map_singleton, List.map_singleton, join_concat, text_wordField, List.flatMap_map,
      List.flatMap_map, List.flatMap_map]
    simp [text_wordField, Catalog.fieldHead, Catalog.field]
  have hyears :
      s!" year:{request.startYear.getD earliestYear}-{request.endYear.getD currentYear}".toList =
      ' ' :: (wordField "year" (request.years currentYear)).text := by
    rw [text_wordField, PublicationRequest.years]
    simp only [String.toList_append]
    rfl
  rw [publicationQuery, publicationSpelling, text_withAlternatives, text_juxtaposition,
    List.flatMap_cons]
  simp only [String.toList_append, hids, hyears]
  unfold PublicationRequest.furtherFields
  rcases request.journals with _ | _ | ⟨journal, journals⟩ <;>
    cases request.refereedStatus <;>
    simp [text_wordField, text_choiceField]

end Parts

/-! ### What the filters filter -/

lemma digits_toString {year : Int} (h : 0 ≤ year) :
    (toString year).toList ≠ [] ∧ ∀ c ∈ (toString year).toList, c.isDigit = true := by
  obtain ⟨n, rfl⟩ := Int.eq_ofNat_of_zero_le h
  have htext : (toString (n : Int)).toList = Nat.toDigits 10 n := Nat.toList_repr
  rw [htext]
  exact ⟨Nat.toDigits_ne_nil, fun c hc => Nat.isDigit_of_mem_toDigits (by decide) (by decide) hc⟩

section Filters
variable {currentYear : Int} {request : PublicationRequest}

lemma years_isTerm (hstart : 0 ≤ request.startYear.getD earliestYear)
    (hstop : 0 ≤ request.endYear.getD currentYear) :
    IsTerm true (request.years currentYear).toList ∧
      ∀ c ∈ (request.years currentYear).toList, isPlain c = true := by
  obtain ⟨hne, hdigits⟩ := digits_toString hstart
  obtain ⟨-, hdigits'⟩ := digits_toString hstop
  have htext : (request.years currentYear).toList =
      (toString (request.startYear.getD earliestYear)).toList ++
        '-' :: (toString (request.endYear.getD currentYear)).toList := by
    simp only [PublicationRequest.years, String.toList_append, List.append_assoc]
    rfl
  obtain ⟨d, t, hstartText⟩ := List.exists_cons_of_ne_nil hne
  have hd : d.isDigit = true := hdigits d (hstartText ▸ List.mem_cons_self)
  have hplain : ∀ c ∈ (request.years currentYear).toList, isPlain c = true := by
    intro c hc
    rw [htext] at hc
    rcases List.mem_append.1 hc with hc | hc
    · exact isPlain_of_isDigit (hdigits c hc)
    · rcases List.mem_cons.1 hc with rfl | hc
      · rfl
      · exact isPlain_of_isDigit (hdigits' c hc)
  have hkeyword : ∀ k : String, '-' ∉ k.toList → (request.years currentYear).toList ≠ k.toList := by
    rintro k hk heq
    rw [← heq, htext] at hk
    exact hk (by simp)
  refine ⟨isTerm_of_isPlain true hplain (by simp [htext]) (fun c hc => ?_)
    ⟨hkeyword _ (by decide), hkeyword _ (by decide), hkeyword _ (by decide)⟩, hplain⟩
  rw [htext, hstartText] at hc
  obtain rfl : d = c := by simpa using hc
  refine ⟨?_, ?_⟩ <;>
  · rintro rfl
    cases hd

lemma furtherFields_standalone
    (hjournals : ∀ journals ∈ request.journals, ∀ journal ∈ journals, IsPlainWord journal)
    (hstatus : ∀ status ∈ request.refereedStatus, IsPlainWord status) :
    ∀ p ∈ request.furtherFields, p.Standalone := by
  intro p hp
  rcases List.mem_append.1 hp with hp | hp
  · split at hp
    · rename_i journal journals hsome
      rw [List.mem_singleton] at hp
      subst hp
      exact choiceField_standalone (by decide) (hjournals _ hsome)
    · cases hp
  · split at hp
    · rename_i status hsome
      rw [List.mem_singleton] at hp
      subst hp
      have hword := hstatus status hsome
      exact wordField_standalone (by decide) (hword.isTerm true) hword.isPlain
    · cases hp

/-- The tree is the filters beside one operand that holds all the terms. -/
def FiltersAll (terms filters : List Tree) (tree : Tree) : Prop :=
  ∃ whole, (whole = Tree.ofOperands .or terms ∨ whole = .group (Tree.ofOperands .or terms)) ∧
    tree.withoutSpans = .operation .implicit (whole :: filters)

/-- The query for publications is a disjunction of the identifiers, of which the last one alone
stands among the filters. So the filters filter all identifiers if and only if there is just one. -/
theorem parse_publicationQuery (init : List String) (last : String)
    (hids : ∀ id ∈ init ++ [last], IsPlainWord id)
    (hstart : 0 ≤ request.startYear.getD earliestYear)
    (hstop : 0 ≤ request.endYear.getD currentYear)
    (hjournals : ∀ journals ∈ request.journals, ∀ journal ∈ journals, IsPlainWord journal)
    (hstatus : ∀ status ∈ request.refereedStatus, IsPlainWord status) :
    ∃ tree, Tree.parse (publicationQuery currentYear (init ++ [last]) request) = .ok tree ∧
      tree.withoutSpans = Tree.ofOperands .or (init.map nedTerm ++
        [.operation .implicit (nedTerm last :: request.filters currentYear)]) ∧
      (FiltersAll ((init ++ [last]).map nedTerm) (request.filters currentYear) tree ↔
        init = []) := by
  have hterm : ∀ id ∈ init ++ [last], (wordField "nedid" id).Standalone := fun id hid =>
    wordField_standalone (by decide) ((hids id hid).isTerm true) (hids id hid).isPlain
  have hterms : ∀ p ∈ init.map (wordField "nedid"), p.Standalone := by
    intro p hp
    obtain ⟨id, hid, rfl⟩ := List.mem_map.1 hp
    exact hterm id (List.mem_append_left _ hid)
  obtain ⟨hyears, hplain⟩ := years_isTerm hstart hstop
  have hfilters : ∀ p ∈ wordField "nedid" last ::
      wordField "year" (request.years currentYear) :: request.furtherFields, p.Standalone := by
    intro p hp
    rcases List.mem_cons.1 hp with rfl | hp
    · exact hterm last (by simp)
    rcases List.mem_cons.1 hp with rfl | hp
    · exact wordField_standalone (by decide) hyears hplain
    · exact furtherFields_standalone hjournals hstatus p hp
  obtain ⟨tree, hparse, hshape⟩ := parse_withAlternatives
    (text_publicationSpelling currentYear request init last) hterms hfilters
  rw [shape_furtherFields, List.map_map] at hshape
  refine ⟨tree, hparse, hshape, fun hall => ?_, ?_⟩
  · obtain ⟨whole, -, hwhole⟩ := hall
    rw [hshape] at hwhole
    -- With an identifier in front of the last one, the tree is a disjunction.
    cases init with
    | nil => rfl
    | cons first init =>
      cases init <;> cases hwhole
  · rintro rfl
    exact ⟨nedTerm last, .inl rfl, hshape⟩

end Filters

theorem parse_publicationQuery_of_two : IsPlainWord "A" ∧ IsPlainWord "B_2" ∧ IsPlainWord "ApJ" ∧
    IsPlainWord "MNRAS" ∧ IsPlainWord "refereed" ∧
    ∃ tree, Tree.parse (publicationQuery 2024 (["A"] ++ ["B_2"])
        ⟨["x"], some 2000, none, some ["ApJ", "MNRAS"], some "refereed"⟩) = .ok tree ∧
      tree.withoutSpans = Tree.ofOperands .or (["A"].map nedTerm ++
        [.operation .implicit (nedTerm "B_2" :: PublicationRequest.filters 2024
          ⟨["x"], some 2000, none, some ["ApJ", "MNRAS"], some "refereed"⟩)]) ∧
      (FiltersAll ((["A"] ++ ["B_2"]).map nedTerm) (PublicationRequest.filters 2024
        ⟨["x"], some 2000, none, some ["ApJ", "MNRAS"], some "refereed"⟩) tree ↔ ["A"] = []) := by
  have hA : IsPlainWord "A" := by decide
  have hB : IsPlainWord "B_2" := by decide
  have hApJ : IsPlainWord "ApJ" := by decide
  have hMNRAS : IsPlainWord "MNRAS" := by decide
  have hrefereed : IsPlainWord "refereed" := by decide
  refine ⟨hA, hB, hApJ, hMNRAS, hrefereed,
    parse_publicationQuery ["A"] "B_2" ?_ (by decide) (by decide) ?_ ?_⟩
  · simp [hA, hB]
  · simp [hApJ, hMNRAS]
  · simp [hrefereed]

/-- Of two objects, the first one is found from every year. -/
theorem publicationQuery_of_two_objects :
    publicationQuery 2024 ["A", "B"] ⟨["x"], none, none, none, none⟩ =
      "nedid:A OR nedid:B year:1800-2024" ∧
    ∃ tree, Tree.parse "nedid:A OR nedid:B year:1800-2024" = .ok tree ∧
      tree = .operation .or [.field "nedid" (.word "A") ⟨0, 7⟩,
        .operation .implicit [.field "nedid" (.word "B") ⟨11, 18⟩,
          .field "year" (.word "1800-2024") ⟨19, 33⟩]] ∧
      ¬ FiltersAll (["A", "B"].map nedTerm)
        (PublicationRequest.filters 2024 ⟨["x"], none, none, none, none⟩) tree := by
  refine ⟨by decide +kernel, _, Spelling.parse .empty .empty
    (.linked (.bare (wordField "nedid" "A")) (.or .one .one)
      (.linked (.bare (wordField "nedid" "B")) (.beside .one)
        (.single (.bare (wordField "year" "1800-2024"))))) rfl (by decide +kernel) rfl, rfl, ?_⟩
  rintro ⟨whole, -, hwhole⟩
  cases hwhole

end SkyResolver
