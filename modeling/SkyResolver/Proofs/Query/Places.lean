import SkyResolver.Query.Clause
import SkyResolver.Proofs.Query.WrittenForm

/-! Where the clauses of a query stand. The object fields of a query's tree are parts of its
spelling, one after another and apart from each other; the text and the span of a clause are those
of its field. -/
namespace SkyResolver.Query
open SkyResolver.Text

/-- The object fields of a spelling that is followed by `r`, in order, each with the text behind it.
-/
def Spelling.objectFields : {k : Rank} → Spelling k → List Char →
    List (Spelling .element × List Char)
  | _, .atom none _, _ => []
  | _, .atom (some head) value, r =>
    if isObjectField head.name then [(.atom (some head) value, r)] else []
  | _, .group none _ inner after, r => inner.objectFields (after.chars ++ ')' :: r)
  | _, .group (some head) before inner after, r =>
    if isObjectField head.name then [(.group (some head) before inner after, r)] else []
  | _, .modified operand gap modifier number, r =>
    operand.objectFields (gap.chars ++ modifier.mark :: (optionalChars number ++ r))
  | _, .bare element, r => element.objectFields r
  | _, .prefixed _ _ operand, r => operand.objectFields r
  | _, .single operand, r => operand.objectFields r
  | _, .linked first link rest, r =>
    first.objectFields (link.text ++ (rest.text ++ r)) ++ rest.objectFields r

/-- The text of a spelling that is followed by `r`, with other texts for its object fields. -/
def Spelling.textWith (new : Spelling .element → List Char → List Char) :
    {k : Rank} → Spelling k → List Char → List Char
  | _, .atom none value, _ => value.text
  | _, .atom (some head) value, r =>
    if isObjectField head.name then new (.atom (some head) value) r else head.text ++ value.text
  | _, .group none before inner after, r =>
    '(' ::
      (before.chars ++ (inner.textWith new (after.chars ++ ')' :: r) ++ (after.chars ++ [')'])))
  | _, .group (some head) before inner after, r =>
    if isObjectField head.name then new (.group (some head) before inner after) r
    else (Spelling.group (some head) before inner after).text
  | _, .modified operand gap modifier number, r =>
    operand.textWith new (gap.chars ++ modifier.mark :: (optionalChars number ++ r)) ++
      (gap.chars ++ modifier.mark :: optionalChars number)
  | _, .bare element, r => element.textWith new r
  | _, .prefixed op gap operand, r => signText op ++ (gap.chars ++ operand.textWith new r)
  | _, .single operand, r => operand.textWith new r
  | _, .linked first link rest, r =>
    first.textWith new (link.text ++ (rest.text ++ r)) ++ (link.text ++ rest.textWith new r)

/-- The name of the field that an element is, if it is one. -/
def Spelling.fieldName? : Spelling .element → Option String
  | .atom head _ => head.map FieldHead.name
  | .group head _ _ _ => head.map FieldHead.name
  | .modified _ _ _ _ => none

/-- What a field holds. -/
def fieldValue : Tree → Tree
  | .field _ value _ => value
  | tree => tree

/-- The clause that an object field makes when `r` follows it at the end of `total` bytes. -/
def clauseAt (total : Nat) (field : Spelling .element) (r : List Char) : Clause :=
  { text := String.ofList field.text
    span := spanBefore total field.text r
    names := namesInValue (fieldValue (field.tree total r)) }

/-! ### Fields of spellings -/

lemma Spelling.objectFields_valid {k : Rank} {p : Spelling k} {r : List Char} (h : p.Valid r) :
    ∀ x ∈ p.objectFields r, x.1.Valid x.2 ∧ ∃ name, x.1.fieldName? = some name ∧
    isObjectField name := by
  induction p generalizing r with
  | atom head value =>
    cases head with
    | none => simp [Spelling.objectFields]
    | some head =>
      intro x hx
      rw [Spelling.objectFields] at hx
      split at hx
      · rename_i hname
        rw [List.mem_singleton] at hx
        subst hx
        exact ⟨h, head.name, rfl, hname⟩
      · cases hx
  | group head before inner after ih =>
    cases head with
    | none => exact ih h.2
    | some head =>
      intro x hx
      rw [Spelling.objectFields] at hx
      split at hx
      · rename_i hname
        rw [List.mem_singleton] at hx
        subst hx
        exact ⟨h, head.name, rfl, hname⟩
      · cases hx
  | modified operand gap modifier number ih => exact ih h.1
  | bare element ih => exact ih h
  | prefixed op gap operand ih => exact ih h.2
  | single operand ih => exact ih h
  | linked first link rest ihFirst ihRest =>
    intro x hx
    rcases List.mem_append.1 hx with hx | hx
    · exact ihFirst h.1 x hx
    · exact ihRest h.2.2 x hx

lemma Tree.objectFields_operation (op : Connective) (trees : List Tree) :
    (Tree.operation op trees).objectFields = trees.flatMap Tree.objectFields := by
  rw [Tree.objectFields]
  induction trees with
  | nil => rfl
  | cons tree trees ih => rw [Tree.objectFieldsOfAll, ih, List.flatMap_cons]

section Gather
variable {α : Type} {f : Tree → List α}
  (hf : ∀ op trees, f (.operation op trees) = trees.flatMap f)
include hf

lemma gather_ofOperands (op : Connective) (trees : List Tree) :
    f (Tree.ofOperands op trees) = trees.flatMap f := by
  unfold Tree.ofOperands
  split
  · simp
  · exact hf op trees

/-- What is gathered from a chain is gathered from its operands, in order. -/
lemma Link.gather_attach (link : Link) (tree : Tree) (joined : Joined) :
    f (link.attach tree joined).tree = f tree ++ f joined.tree := by
  cases link <;>
    simp [Joined.tree, Link.attach, Joined.alternatives, Joined.juxtaposition, gather_ofOperands hf]

end Gather

/-- The object fields of the tree are those of the spelling. -/
theorem Spelling.objectFields_tree {k : Rank} (p : Spelling k) (total : Nat) (r : List Char) :
    (p.tree total r).objectFields = (p.objectFields r).map fun x =>
      (x.1.tree total x.2, fieldValue (x.1.tree total x.2), spanBefore total x.1.text x.2) := by
  induction p generalizing r with
  | atom head value =>
    rw [Spelling.tree, Spelling.joined, Joined.tree_single]
    cases head with
    | none => cases value <;> rfl
    | some head =>
      rw [named, Tree.objectFields, Spelling.objectFields]
      split <;> simp [Spelling.tree, Spelling.joined, named, fieldValue, Spelling.text]
  | group head before inner after ih =>
    rw [Spelling.tree, Spelling.joined, Joined.tree_single]
    cases head with
    | none => exact ih _
    | some head =>
      rw [named, Tree.objectFields, Spelling.objectFields]
      split <;> simp [Spelling.tree, Spelling.joined, named, fieldValue]
  | modified operand gap modifier number ih =>
    rw [Spelling.tree, Spelling.joined, Joined.tree_single]
    cases modifier <;> exact ih _
  | bare element ih => exact ih r
  | prefixed op gap operand ih =>
    rw [Spelling.tree, Spelling.joined, Joined.tree_single]
    exact ih r
  | single operand ih => exact ih r
  | linked first link rest ihFirst ihRest =>
    have htree : (Spelling.linked first link rest).tree total r =
        (link.attach (first.tree total (link.text ++ (rest.text ++ r)))
          (rest.joined total r)).tree :=
      rfl
    have hrest : (rest.joined total r).tree.objectFields = _ := ihRest r
    rw [htree, Link.gather_attach Tree.objectFields_operation, ihFirst, hrest,
      Spelling.objectFields, List.map_append]

/-! ### Order of the fields -/

/-- From a text to its end `r`, the fields stand one after another, each followed by its rest. With
new texts in their places, the text before the end becomes the last one. -/
inductive LaidOut (new : Spelling .element → List Char → List Char) :
    List Char → List (Spelling .element × List Char) → List Char → List Char → Prop where
  | nil (s r : List Char) : LaidOut new (s ++ r) [] r s
  | cons (s : List Char) (field : Spelling .element) {t r w : List Char}
      {fields : List (Spelling .element × List Char)} (rest : LaidOut new t fields r w) :
      LaidOut new (s ++ (field.text ++ t)) ((field, t) :: fields) r (s ++ (new field t ++ w))

section LaidOut
variable {new : Spelling .element → List Char → List Char}
  {fields fields' : List (Spelling .element × List Char)} {s t u r w w' : List Char}

lemma LaidOut.append_left (h : LaidOut new s fields r w) (u : List Char) :
    LaidOut new (u ++ s) fields r (u ++ w) := by
  cases h with
  | nil =>
    rw [← List.append_assoc]
    exact .nil _ r
  | cons s field rest =>
    have := LaidOut.cons (u ++ s) field rest
    rwa [List.append_assoc, List.append_assoc] at this

lemma LaidOut.append_right (h : LaidOut new s fields (u ++ r) w) :
    LaidOut new s fields r (w ++ u) := by
  generalize hend : u ++ r = t at h
  induction h with
  | nil s =>
    subst hend
    rw [← List.append_assoc]
    exact .nil (s ++ u) r
  | cons s field rest ih =>
    rw [List.append_assoc, List.append_assoc]
    exact .cons s field (ih hend)

lemma LaidOut.trans (h : LaidOut new s fields t w) (h' : LaidOut new t fields' r w') :
    LaidOut new s (fields ++ fields') r (w ++ w') := by
  induction h with
  | nil s t => exact h'.append_left s
  | cons s field rest ih =>
    rw [List.append_assoc, List.append_assoc]
    exact .cons s field (ih h')

lemma LaidOut.one (field : Spelling .element) (r : List Char) :
    LaidOut new (field.text ++ r) [(field, r)] r (new field r) := by
  have h : LaidOut new ([] ++ (field.text ++ r)) [(field, r)] r ([] ++ (new field r ++ [])) :=
    .cons [] field (.nil [] r)
  rwa [List.nil_append, List.nil_append, List.append_nil] at h

end LaidOut

theorem Spelling.laidOut (new : Spelling .element → List Char → List Char) {k : Rank}
    (p : Spelling k) (r : List Char) :
    LaidOut new (p.text ++ r) (p.objectFields r) r (p.textWith new r) := by
  induction p generalizing r with
  | atom head value =>
    cases head with
    | none => exact .nil _ r
    | some head =>
      rw [Spelling.objectFields, Spelling.textWith]
      split
      · exact .one _ r
      · exact .nil _ r
  | group head before inner after ih =>
    cases head with
    | none =>
      have hinner := (ih (after.chars ++ ')' :: r)).append_left ('(' :: before.chars)
      have hend := LaidOut.append_right (u := after.chars ++ [')']) (by simpa using hinner)
      simpa [Spelling.text, headText, Spelling.objectFields, Spelling.textWith] using hend
    | some head =>
      rw [Spelling.objectFields, Spelling.textWith]
      split
      · exact .one _ r
      · exact .nil _ r
  | modified operand gap modifier number ih =>
    have hoperand := ih (gap.chars ++ modifier.mark :: (optionalChars number ++ r))
    have hend := LaidOut.append_right (u := gap.chars ++ modifier.mark :: optionalChars number)
      (by simpa using hoperand)
    simpa [Spelling.text, Spelling.objectFields, Spelling.textWith] using hend
  | bare element ih => exact ih r
  | prefixed op gap operand ih =>
    have := (ih r).append_left (signText op ++ gap.chars)
    simpa [Spelling.text, Spelling.objectFields, Spelling.textWith] using this
  | single operand ih => exact ih r
  | linked first link rest ihFirst ihRest =>
    have := (ihFirst (link.text ++ (rest.text ++ r))).trans ((ihRest r).append_left link.text)
    simpa [Spelling.text, Spelling.objectFields, Spelling.textWith] using this

/-! ### Clauses of queries -/

lemma slice?_spanBefore (u text r : List Char) :
    (spanBefore (byteLength (u ++ (text ++ r))) text r).slice? (u ++ (text ++ r)) = some text := by
  have hstart : byteLength (u ++ (text ++ r)) - byteLength (text ++ r) = byteLength u := by simp
  have hstop : byteLength (u ++ (text ++ r)) - byteLength r - byteLength u = byteLength text := by
    simp only [byteLength_append]
    omega
  rw [Span.slice?, spanBefore, hstart, if_pos (by simp only [byteLength_append]; omega),
    dropBytes?_append, Option.bind_some, hstop, takeBytes?_append]

lemma LaidOut.split {new : Spelling .element → List Char → List Char} {s r w : List Char}
    {fields : List (Spelling .element × List Char)} (h : LaidOut new s fields r w) :
    ∀ x ∈ fields, ∃ u, s = u ++ (x.1.text ++ x.2) := by
  induction h with
  | nil => simp
  | cons s field rest ih =>
    intro x hx
    rcases List.mem_cons.1 hx with rfl | hx
    · exact ⟨s, rfl⟩
    · obtain ⟨u, rfl⟩ := ih x hx
      exact ⟨s ++ (field.text ++ u), by simp⟩

/-- The spelling of an accepted query, and its clauses as they stand there. -/
theorem exists_spelling_of_parse {query : String} {tree : Tree} (h : Tree.parse query = .ok tree) :
    ∃ (before after : Gap) (p : Spelling .chain),
      query.toList = before.chars ++ (p.text ++ after.chars) ∧ p.Valid after.chars ∧
      tree = p.tree (byteLength query.toList) after.chars ∧
      ∀ x ∈ p.objectFields after.chars, Clause.ofField query
          (x.1.tree (byteLength query.toList) x.2)
          (fieldValue (x.1.tree (byteLength query.toList) x.2))
          (spanBefore (byteLength query.toList) x.1.text x.2) =
        clauseAt (byteLength query.toList) x.1 x.2 := by
  obtain ⟨-, hchars⟩ := parse_eq_ok.1 h
  obtain ⟨before, after, p, hquery, hvalid, htree⟩ := exists_spelling hchars
  refine ⟨before, after, p, hquery, hvalid, htree.symm, fun x hx => ?_⟩
  have hlaid := (p.laidOut (fun _ _ => []) after.chars).append_left before.chars
  obtain ⟨u, hu⟩ := hlaid.split x hx
  rw [← hquery] at hu
  simp only [Clause.ofField, clauseAt, hu, slice?_spanBefore, Option.getD_some]

lemma ofQuery_eq_ok {query : String} {extraction : Extraction} :
    Extraction.ofQuery query = .ok extraction ↔
      ∃ tree, Tree.parse query = .ok tree ∧ Extraction.ofTree query tree = extraction := by
  unfold Extraction.ofQuery
  cases Tree.parse query <;> simp [Except.map]

theorem exists_clauses {query : String} {extraction : Extraction}
    (h : Extraction.ofQuery query = .ok extraction) :
    ∃ (before after : Gap) (p : Spelling .chain),
      query.toList = before.chars ++ (p.text ++ after.chars) ∧ p.Valid after.chars ∧
      extraction.clauses = (p.objectFields after.chars).map fun x =>
        clauseAt (byteLength query.toList) x.1 x.2 := by
  obtain ⟨tree, hparse, rfl⟩ := ofQuery_eq_ok.1 h
  obtain ⟨before, after, p, hquery, hvalid, rfl, hclauses⟩ := exists_spelling_of_parse hparse
  refine ⟨before, after, p, hquery, hvalid, ?_⟩
  rw [Extraction.ofTree, p.objectFields_tree, List.map_map]
  exact List.map_congr_left hclauses

end SkyResolver.Query
