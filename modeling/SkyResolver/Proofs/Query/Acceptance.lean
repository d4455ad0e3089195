import SkyResolver.Proofs.Query.Splice
import SkyResolver.Proofs.Query.Rewriting

/-! Expanded queries as queries. A variant in which names are replaced inside words, bounds and
phrases only is a field again, so the group of the variants may take the place of the clause; the
expansion of a query is then a query whenever its parentheses match. -/
namespace SkyResolver.Query
open SkyResolver.Text

/-! ### Groups in place of fields -/

/-- The spelling with a group in place of each object field. -/
def Spelling.enclosed (inner : Spelling .element → List Char → Spelling .chain) :
    {k : Rank} → Spelling k → List Char → Spelling k
  | _, .atom none value, _ => .atom none value
  | _, .atom (some head) value, r =>
    if isObjectField head.name then .group none .empty (inner (.atom (some head) value) r) .empty
    else .atom (some head) value
  | _, .group none before operands after, r =>
    .group none before (operands.enclosed inner (after.chars ++ ')' :: r)) after
  | _, .group (some head) before operands after, r =>
    if isObjectField head.name then
      .group none .empty (inner (.group (some head) before operands after) r) .empty
    else .group (some head) before operands after
  | _, .modified operand gap modifier number, r =>
    .modified (operand.enclosed inner (gap.chars ++ modifier.mark :: (optionalChars number ++ r)))
      gap
      modifier number
  | _, .bare element, r => .bare (element.enclosed inner r)
  | _, .prefixed op gap operand, r => .prefixed op gap (operand.enclosed inner r)
  | _, .single operand, r => .single (operand.enclosed inner r)
  | _, .linked first link rest, r =>
    .linked (first.enclosed inner (link.text ++ (rest.text ++ r))) link (rest.enclosed inner r)

section Enclosed
variable (inner : Spelling .element → List Char → Spelling .chain)

lemma Spelling.text_enclosed (new : Spelling .element → List Char → List Char) {k : Rank}
    (p : Spelling k) (r : List Char)
    (h : ∀ x ∈ p.objectFields r, '(' :: ((inner x.1 x.2).text ++ [')']) = new x.1 x.2) :
    (p.enclosed inner r).text = p.textWith new r := by
  induction p generalizing r with
  | atom head value =>
    cases head with
    | none => rfl
    | some head =>
      rw [Spelling.objectFields] at h
      rw [Spelling.enclosed, Spelling.textWith]
      split
      · rename_i hname
        rw [if_pos hname] at h
        rw [← h _ (List.mem_singleton_self _)]
        simp [Spelling.text, headText, Gap.empty]
      · rfl
  | group head before operands after ih =>
    cases head with
    | none => simp [Spelling.enclosed, Spelling.textWith, Spelling.text, headText, ih _ h]
    | some head =>
      rw [Spelling.objectFields] at h
      rw [Spelling.enclosed, Spelling.textWith]
      split
      · rename_i hname
        rw [if_pos hname] at h
        rw [← h _ (List.mem_singleton_self _)]
        simp [Spelling.text, headText, Gap.empty]
      · rfl
  | modified operand gap modifier number ih =>
    rw [Spelling.enclosed, Spelling.text, ih _ h, Spelling.textWith]
  | bare element ih => exact ih r h
  | prefixed op gap operand ih => rw [Spelling.enclosed, Spelling.text, ih r h, Spelling.textWith]
  | single operand ih => exact ih r h
  | linked first link rest ihFirst ihRest =>
    rw [Spelling.enclosed, Spelling.text, ihFirst _ fun x hx => h x (List.mem_append_left _ hx),
      ihRest r fun x hx => h x (List.mem_append_right _ hx), Spelling.textWith]

/-- Groups may stand where object fields stood. -/
theorem Spelling.Revises.enclosed_fields {k : Rank} (p : Spelling k) (r : List Char)
    (hinner : ∀ x ∈ p.objectFields r, ∀ t, (inner x.1 x.2).Valid (')' :: t)) :
    p.Revises (p.enclosed inner r) ∧ p.Tame (p.enclosed inner r) := by
  have hhead : ∀ head, HeadRevises head head := fun head => ⟨rfl, id⟩
  induction p generalizing r with
  | atom head value =>
    cases head with
    | none => exact ⟨.atom (hhead none) (.refl _ value), .atom value⟩
    | some head =>
      rw [Spelling.objectFields] at hinner
      rw [Spelling.enclosed]
      split
      · rename_i hname
        rw [if_pos hname] at hinner
        exact ⟨.enclosed _ _ fun _ t _ => hinner _ (List.mem_singleton_self _) t, .group _ _ _ _ _⟩
      · exact ⟨.atom (hhead (some head)) (.refl _ value), .named _ head value⟩
  | group head before operands after ih =>
    cases head with
    | none => exact ⟨.group _ _ _ _ (hhead none) (ih _ hinner).1, .group _ _ _ _ _⟩
    | some head =>
      rw [Spelling.objectFields] at hinner
      rw [Spelling.enclosed]
      split
      · rename_i hname
        rw [if_pos hname] at hinner
        exact ⟨.enclosed _ _ fun _ t _ => hinner _ (List.mem_singleton_self _) t, .group _ _ _ _ _⟩
      · exact ⟨.refl _, .group _ _ _ _ _⟩
  | modified operand gap modifier number ih =>
    obtain ⟨hrevises, htame⟩ := ih _ hinner
    exact ⟨.modified _ _ _ _ hrevises, htame.modified _ _ _⟩
  | bare element ih =>
    obtain ⟨hrevises, htame⟩ := ih r hinner
    exact ⟨.bare hrevises, htame⟩
  | prefixed op gap operand ih =>
    exact ⟨.prefixed _ _ _ (fun _ => .inl rfl) (ih r hinner).1, .prefixed _ _ _ _⟩
  | single operand ih =>
    obtain ⟨hrevises, htame⟩ := ih r hinner
    exact ⟨.single hrevises, htame⟩
  | linked first link rest ihFirst ihRest =>
    obtain ⟨hrevises, htame⟩ := ihFirst (link.text ++ (rest.text ++ r))
      fun x hx => hinner x (List.mem_append_left _ hx)
    obtain ⟨hrevises', htame'⟩ := ihRest r fun x hx => hinner x (List.mem_append_right _ hx)
    exact ⟨.linked hrevises (.inl rfl) hrevises' fun _ _ => htame', htame.linked _ _ _⟩

end Enclosed

/-! ### Variants side by side -/

/-- The element is valid in front of all texts that prolong nothing. -/
def Spelling.Free (p : Spelling .element) : Prop := ∀ r, Calmer [] r → Tamer [] r → p.Valid r

def disjunction (first : Spelling .element) : List (Spelling .element) → Spelling .chain
  | [] => .single (.bare first)
  | second :: rest => .linked (.bare first) (.or .one .one) (disjunction second rest)

lemma text_disjunction (first : Spelling .element) (rest : List (Spelling .element)) :
    (disjunction first rest).text = join " OR ".toList (first.text :: rest.map Spelling.text) := by
  induction rest generalizing first with
  | nil => simp [disjunction, Spelling.text, join]
  | cons second rest ih => 
    rw [disjunction, Spelling.text, ih]
    simp [Spelling.text, join, Link.text, Gap.one]

lemma valid_disjunction {first : Spelling .element} {rest : List (Spelling .element)}
    (hfirst : first.Free) (hrest : ∀ p ∈ rest, p.Free) (r : List Char) :
    (disjunction first rest).Valid (')' :: r) := by
  induction rest generalizing first with
  | nil => exact hfirst _ (.of_halt .empty (.inl rfl) _ r) (.of_halt .empty (.inl rfl) _ r)
  | cons second rest ih =>
    have hsecond := ih (hrest second (by simp)) fun p hp => hrest p (by simp [hp])
    have hlink : (Link.or .one .one).Valid ((disjunction second rest).text ++ ')' :: r) :=
      Gap.atWordChar_one _
    refine ⟨hfirst _ ⟨fun _ => Gap.atWordChar_one _, fun _ => ?_, fun _ => ?_⟩ ?_, hlink, hsecond⟩
    · exact Link.colonAhead _ hsecond.front.2
    · exact Link.startsOperand hlink hsecond.front.2
    · exact .of_false (Link.not_digitAhead (by simp [Link.text, Gap.one]) _)

/-! ### Expanded queries -/

/-- The exchange of heads finds exactly the heads of object fields, and in the clause for each
target names are found only inside words, bounds and phrases. -/
structure Spelling.Fits (p : Spelling .element) (names : List String) (targets : List Catalog) :
    Prop where
  heads : headFinder.Fires [] none p.headMarks
  names : ∀ catalog ∈ targets, (nameFinder (longestFirst names)).Confined [] none
    (p.renamed catalog.field).rooms

section Variants
variable {clause : Clause} {p : Spelling .element} {names : List String} {targets : List Catalog}
  {identification : Identification}

lemma Spelling.Valid.renamed (hp : p.Valid []) (field : String)
    (hfield : IsFieldName field.toList) :
    (p.renamed field).Free := fun _ hcalm htame =>
  (Spelling.Revises.withHeads _ (.renamed hfield) p).1.valid hp hcalm fun _ => htame

/-- No object field is left when all are renamed. -/
lemma Spelling.objectFields_renamed {field : String} (hfield : isObjectField field = false)
    {k : Rank} (p : Spelling k) (r : List Char) : (p.renamed field).objectFields r = [] := by
  have hname : ∀ head : FieldHead, isObjectField (head.renamed field).name = false := by
    intro head
    unfold FieldHead.renamed
    split
    · exact hfield
    · exact Bool.eq_false_iff.2 ‹_›
  induction p generalizing r with
  | atom head value => cases head <;> simp [Spelling.withHeads, Spelling.objectFields, hname]
  | group head before inner after ih =>
    cases head with
    | none => exact ih _
    | some head => simp [Spelling.withHeads, Spelling.objectFields, hname]
  | modified operand gap modifier number ih => exact ih _
  | bare element ih => exact ih _
  | prefixed op gap operand ih => exact ih _
  | single operand ih => exact ih _
  | linked first link rest ihFirst ihRest =>
    exact List.append_eq_nil_iff.2 ⟨ihFirst _, ihRest _⟩

lemma isObjectField_field (catalog : Catalog) : isObjectField catalog.field = false := by
  cases catalog <;> decide

lemma exists_catalogVariant
    (hid : ∀ catalog name id, identification catalog name = some id → IsNumeral id)
    (hp : p.Valid []) (htext : p.text = clause.text.toList) (hfits : p.Fits names targets)
    {catalog : Catalog} (hcatalog : catalog ∈ targets) :
    ∃ p' : Spelling .element, p'.text = catalogVariant clause names identification catalog ∧
    p'.Free ∧
      p'.objectFields [] = [] := by
  have hrenamed := (hp.renamed catalog.field (isFieldName_field catalog)) [] (.refl []) (.refl [])
  have hpass := namePass_gentle (longestFirst names) (identifierOf_digits (hid catalog))
  obtain ⟨p', hrewrites, hrewritten⟩ :=
    hrenamed.exists_rewritten hpass (hfits.names catalog hcatalog)
  obtain ⟨hrevises, -, hfields, -⟩ := hrewritten.revises hpass hrenamed
  refine ⟨p', ?_, fun r hcalm htame => hrevises.valid hrenamed hcalm fun _ => htame,
    hfields [] [] (p.objectFields_renamed (isObjectField_field catalog) [])⟩
  rw [catalogVariant_eq_replaceNames hp htext hfits.heads, replaceNamesFrom_eq hrewrites]

/-- The variant for the full text. -/
lemma renameHead_fullText (hp : p.Valid []) (htext : p.text = clause.text.toList)
    (hheads : headFinder.Fires [] none p.headMarks) :
    renameHead "=abs:".toList clause.text.toList = (p.renamed "=abs").text := by
  rw [← htext, ← renameHead_text hp hheads]
  rfl

end Variants

end SkyResolver.Query
