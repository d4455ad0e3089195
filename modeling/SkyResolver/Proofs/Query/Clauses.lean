import SkyResolver.Proofs.Query.Marks
import SkyResolver.Proofs.Query.Splice
import SkyResolver.Proofs.Query.Substitution

/-! The clauses of a query are cut out of it. They stand apart from each other, in order; each is a
piece of the query that starts with its field's name, and read alone it is one clause with the same
names. -/
namespace SkyResolver.Query
open SkyResolver.Text

/-- The clause is a piece of the query, and where its own parentheses match it is a query with this
one clause. -/
structure Clause.Verbatim (query : String) (clause : Clause) : Prop where
  nonempty : clause.span.start < clause.span.stop
  inside : clause.span.stop ≤ byteLength query.toList
  slice : clause.span.slice? query.toList = some clause.text.toList
  head : ∃ name gap value, clause.text.toList = name ++ (gap ++ ':' :: value) ∧
    equalIgnoringCase name "object".toList = true ∧ IsGap gap
  alone : parenthesesMatch clause.text = true → Extraction.ofQuery clause.text =
    .ok ⟨distinct clause.names,
      [⟨clause.text, ⟨0, byteLength clause.text.toList⟩, clause.names⟩]⟩

/-! ### Places -/

section Places
variable {new : Spelling .element → List Char → List Char} {s r w : List Char}
  {fields : List (Spelling .element × List Char)}

/-- The clauses of the fields laid out behind `u` start behind `u`, and each one ends before the
next. -/
theorem LaidOut.spans_apart (h : LaidOut new s fields r w) {total : Nat} {u : List Char}
    (htotal : total = byteLength (u ++ s)) :
    (∀ clause ∈ clausesAt total fields, byteLength u ≤ clause.span.start) ∧
      (clausesAt total fields).Pairwise fun a b => a.span.stop ≤ b.span.start := by
  induction h generalizing u with
  | nil s r => simp [clausesAt]
  | @cons x field t r w fields rest ih =>
    have hspan : (clauseAt total field t).span = _ :=
      span_clauseAt total (u := u ++ x) (by rw [htotal, List.append_assoc])
    obtain ⟨hbehind, happart⟩ := ih (u := u ++ x ++ field.text) (by rw [htotal]; simp)
    simp only [byteLength_append] at hspan hbehind
    refine ⟨fun clause hclause => ?_, List.pairwise_cons.2 ⟨fun clause hclause => ?_, happart⟩⟩
    · rcases List.mem_cons.1 hclause with rfl | hclause
      · rw [hspan]
        exact Nat.le_add_right _ _
      · have := hbehind clause hclause
        omega
    · rw [hspan]
      simpa [Nat.add_assoc] using hbehind clause hclause

end Places

/-! ### A field by itself -/

section Alone
variable {field : Spelling .element} {r : List Char}

lemma Spelling.exists_head {name : String} (h : field.fieldName? = some name) :
    ∃ head : FieldHead, head.name = name ∧ ((∃ value, field = .atom (some head) value) ∨
      ∃ before inner after, field = .group (some head) before inner after) := by
  cases field with
  | atom head value =>
    obtain ⟨head, rfl, rfl⟩ := Option.map_eq_some_iff.1 h
    exact ⟨head, rfl, .inl ⟨value, rfl⟩⟩
  | group head before inner after =>
    obtain ⟨head, rfl, rfl⟩ := Option.map_eq_some_iff.1 h
    exact ⟨head, rfl, .inr ⟨before, inner, after, rfl⟩⟩
  | modified => cases h

lemma Spelling.text_of_fieldName? {name : String} (h : field.fieldName? = some name) :
    ∃ gap value, field.text = name.toList ++ (gap ++ ':' :: value) ∧ IsGap gap := by
  obtain ⟨head, rfl, ⟨value, rfl⟩ | ⟨before, inner, after, rfl⟩⟩ := Spelling.exists_head h
  · exact ⟨head.before.chars, head.after.chars ++ value.text,
      by simp [Spelling.text, headText, FieldHead.text], head.before.blank⟩
  · exact ⟨head.before.chars,
      head.after.chars ++ '(' :: (before.chars ++ (inner.text ++ (after.chars ++ [')']))),
      by simp [Spelling.text, headText, FieldHead.text], head.before.blank⟩

lemma Spelling.names_tree {k : Rank} (p : Spelling k) (total total' : Nat) (r r' : List Char) :
    (p.tree total r).names = (p.tree total' r').names :=
  (p.names_eq true total r).symm.trans (p.names_eq true total' r')

/-- The names of a field's clause are the same wherever the field stands. -/
lemma names_clauseAt {name : String} (h : field.fieldName? = some name) (total total' : Nat)
    (r r' : List Char) : (clauseAt total field r).names = (clauseAt total' field r').names := by
  obtain ⟨head, rfl, ⟨value, rfl⟩ | ⟨before, inner, after, rfl⟩⟩ := Spelling.exists_head h
  · rfl
  · exact inner.names_tree _ _ _ _

lemma Spelling.objectFields_of_fieldName? {name : String} (h : field.fieldName? = some name)
    (hobject : isObjectField name = true) (r : List Char) :
    field.objectFields r = [(field, r)] := by
  obtain ⟨head, rfl, ⟨value, rfl⟩ | ⟨before, inner, after, rfl⟩⟩ := Spelling.exists_head h
  · rw [Spelling.objectFields, if_pos hobject]
  · rw [Spelling.objectFields, if_pos hobject]

/-- An object field with nothing around it is a query with one clause, the whole of it. -/
theorem ofQuery_of_field (hvalid : field.Valid []) {name : String}
    (hname : field.fieldName? = some name) (hobject : isObjectField name = true)
    (hbalanced : parenthesesMatch (String.ofList field.text) = true) :
    Extraction.ofQuery (String.ofList field.text) =
      .ok ⟨distinct (clauseAt (byteLength field.text) field []).names,
        [⟨String.ofList field.text, ⟨0, byteLength field.text⟩,
          (clauseAt (byteLength field.text) field []).names⟩]⟩ := by
  have htext : (String.ofList field.text).toList =
      Gap.empty.chars ++ ((Spelling.single (.bare field)).text ++ Gap.empty.chars) := by
    simp [Spelling.text, Gap.empty]
  have hparse := Spelling.parse .empty .empty _ htext hvalid hbalanced
  have hslice := slice?_spanBefore [] field.text []
  have hspan : spanBefore (byteLength field.text) field.text [] = ⟨0, byteLength field.text⟩ := by
    simp [spanBefore]
  rw [List.append_nil, List.nil_append, hspan] at hslice
  rw [Extraction.ofQuery, hparse, String.toList_ofList]
  simp only [Except.map, Extraction.ofTree, Gap.empty, Spelling.objectFields_tree,
    Spelling.objectFields, Spelling.objectFields_of_fieldName? hname hobject, List.map_cons,
    List.map_nil, Clause.ofField, String.toList_ofList, hspan, hslice, Option.getD_some,
    List.flatMap_cons, List.flatMap_nil, List.append_nil, clauseAt]

end Alone

/-! ### The clauses of a query -/

/-- The clauses of a query are pieces of it, one behind the other, and each of them is a clause by
itself. -/
theorem clauses_verbatim {query : String} {extraction : Extraction}
    (h : Extraction.ofQuery query = .ok extraction) :
    (∀ clause ∈ extraction.clauses, clause.Verbatim query) ∧
      extraction.clauses.Pairwise fun a b =>
        a.span.start < b.span.start ∧ a.span.stop ≤ b.span.start := by
  obtain ⟨before, after, p, hquery, hvalid, hclauses⟩ := exists_clauses h
  have hlaid := (p.laidOut (fun _ _ => []) after.chars).append_left before.chars
  rw [← hquery] at hlaid
  obtain ⟨-, happart⟩ := hlaid.spans_apart (u := []) (rfl : byteLength query.toList = _)
  rw [clausesAt, ← hclauses] at happart
  have hverbatim : ∀ clause ∈ extraction.clauses, clause.Verbatim query := by
    intro clause hclause
    rw [hclauses] at hclause
    obtain ⟨⟨field, t⟩, hx, rfl⟩ := List.mem_map.1 hclause
    obtain ⟨hfield, name, hname, hobject⟩ := p.objectFields_valid hvalid _ hx
    obtain ⟨u, hu⟩ := hlaid.split _ hx
    have hspan := span_clauseAt _ (congrArg byteLength hu)
    have htext : (clauseAt (byteLength query.toList) field t).text.toList = field.text :=
      String.toList_ofList
    obtain ⟨gap, value, hhead, hgap⟩ := Spelling.text_of_fieldName? hname
    refine ⟨?_, ?_, ?_, ⟨name.toList, gap, value, htext.trans hhead, hobject, hgap⟩,
      fun hbalanced => ?_⟩
    · have hpos := Char.utf8Size_pos ':'
      rw [hspan]
      simp only [byteLength_append, hhead, byteLength_cons]
      omega
    · rw [hspan, hu]
      simp only [byteLength_append]
      omega
    · rw [htext, hu]
      exact slice?_spanBefore u field.text t
    · -- The reader stops at the end of the text as it stopped at what followed in the query.
      rw [htext, names_clauseAt hname _ (byteLength field.text) _ []]
      exact ofQuery_of_field hfield.at_end hname hobject hbalanced
  refine ⟨hverbatim, happart.imp_of_mem fun ha _ hstop => ⟨?_, hstop⟩⟩
  exact Nat.lt_of_lt_of_le (hverbatim _ ha).nonempty hstop

theorem clauses_verbatim_of_alternatives :
    Extraction.ofQuery "Object:\"é\" OR object:b" =
      .ok ⟨["é", "b"], [⟨"Object:\"é\"", ⟨0, 11⟩, ["é"]⟩, ⟨"object:b", ⟨15, 23⟩, ["b"]⟩]⟩ ∧
    (∀ clause ∈ [⟨"Object:\"é\"", ⟨0, 11⟩, ["é"]⟩, ⟨"object:b", ⟨15, 23⟩, ["b"]⟩],
      Clause.Verbatim "Object:\"é\" OR object:b" clause) ∧
    [(⟨"Object:\"é\"", ⟨0, 11⟩, ["é"]⟩ : Clause), ⟨"object:b", ⟨15, 23⟩, ["b"]⟩].Pairwise fun a b =>
      a.span.start < b.span.start ∧ a.span.stop ≤ b.span.start :=
  have h : Extraction.ofQuery "Object:\"é\" OR object:b" =
      .ok ⟨["é", "b"], [⟨"Object:\"é\"", ⟨0, 11⟩, ["é"]⟩, ⟨"object:b", ⟨15, 23⟩, ["b"]⟩]⟩ := by
    rw [Extraction.ofQuery, Spelling.parse .empty .empty
      (.linked (.bare (.atom (some ⟨"Object", .empty, .empty⟩) (.phrase "\"é\""))) (.or .one .one)
        (.single (.bare (.atom (some ⟨"object", .empty, .empty⟩) (.word "b")))))
      rfl (by decide +kernel) rfl]
    exact congrArg Except.ok (by decide +kernel)
  ⟨h, clauses_verbatim h⟩

end SkyResolver.Query
