import SkyResolver.Proofs.Query.Marks

/-! The variant of a clause for a catalog. It is made from the text of the clause in two passes:
heads are exchanged in the first one, and names are replaced in the second one. -/
namespace SkyResolver.Query
open SkyResolver.Text

/-! ### Ends of spellings -/

lemma lastOf_digits {s : List Char} (h : ∀ c ∈ s, c.isDigit = true) {d : Char}
    (hd : opensName d = false) : ∃ c, opensName c = false ∧ lastOf (some d) s = some c := by
  induction s generalizing d with
  | nil => exact ⟨d, hd, rfl⟩
  | cons c s ih =>
    exact ih (fun e he => h e (by simp [he])) (not_opensName_of_isDigit (h c (by simp)))

/-- A number ends with a character in the middle of a lexeme. -/
lemma lastOf_number {number : Option String} {r : List Char}
    (h : optionalNumber (optionalChars number ++ r) = (number, r)) {d : Char}
    (hd : opensName d = false) :
    ∃ c, opensName c = false ∧ lastOf (some d) (optionalChars number) = some c := by
  unfold optionalNumber at h
  cases number with
  | none => exact ⟨d, hd, rfl⟩
  | some text =>
    split at h
    · rename_i text' rest hnumber
      cases h
      obtain ⟨-, -, ⟨w, f, htext, -, -, hdigits⟩ | ⟨-, hdigits, -⟩⟩ := number?_eq_some hnumber
      · have : optionalChars (some text) = w ++ '.' :: f := htext
        rw [this, lastOf_append, lastOf_cons]
        exact lastOf_digits hdigits rfl
      · exact lastOf_digits hdigits hd
    · cases h

/-- A spelling that ends with a modifier ends with a character in the middle of a lexeme. -/
lemma Spelling.Valid.lastOf_of_endsModified {k : Rank} {p : Spelling k} {r : List Char}
    (hp : p.Valid r) (hends : p.endsModified = true) (previous : Option Char) :
    ∃ c, opensName c = false ∧ lastOf previous p.text = some c := by
  induction p generalizing r previous with
  | atom => cases hends
  | group => cases hends
  | modified operand gap modifier number ih =>
    simp only [Spelling.text, lastOf_append, lastOf_cons]
    exact lastOf_number hp.2 (by cases modifier <;> rfl)
  | bare element ih => exact ih hp hends previous
  | prefixed op gap operand ih =>
    simp only [Spelling.text, lastOf_append]
    exact ih hp.2 hends _
  | single operand ih => exact ih hp hends previous
  | linked first link rest _ ih =>
    simp only [Spelling.text, lastOf_append]
    exact ih hp.2.2 hends _

lemma HeadRevises.renamed {field : String} (hfield : IsFieldName field.toList)
    (head : Option FieldHead) : HeadRevises head (head.map (FieldHead.renamed field)) := by
  refine ⟨by simp, fun h => ?_⟩
  cases head with
  | none => simp
  | some head =>
    intro head' hhead'
    cases hhead'
    unfold FieldHead.renamed
    split
    · exact hfield
    · exact h head rfl

/-! ### Variants of clauses -/

def IsNumeral (id : String) : Prop := id.toList ≠ [] ∧ ∀ c ∈ id.toList, c.isDigit = true

instance (id : String) : Decidable (IsNumeral id) :=
  decidable_of_iff (id.toList ≠ [] ∧ id.toList.all Char.isDigit = true) (by simp [IsNumeral])

/-- What a name is replaced by for a catalog. -/
def identifierOf (identification : Identification) (catalog : Catalog) (name : List Char) :
    List Char :=
  ((identification catalog (String.ofList name)).getD absentId).toList

lemma identifierOf_digits {identification : Identification} {catalog : Catalog}
    (hid : ∀ name id, identification catalog name = some id → IsNumeral id) (name : List Char) :
    identifierOf identification catalog name ≠ [] ∧
      ∀ c ∈ identifierOf identification catalog name, c.isDigit = true := by
  change IsNumeral ((identification catalog (String.ofList name)).getD absentId)
  cases hfound : identification catalog (String.ofList name) with
  | none => exact (by decide : IsNumeral absentId)
  | some id => exact hid _ id hfound

lemma namePass_gentle (names : List (List Char)) {put : List Char → List Char}
    (hput : ∀ name, put name ≠ [] ∧ ∀ c ∈ put name, c.isDigit = true) :
    (namePass names put).Gentle := by
  refine ⟨fun hfind => ?_, fun hfind => (nameFinder_find hfind).1, hput⟩
  obtain ⟨-, r, hfirst, hs⟩ := nameFinder_find hfind
  exact ⟨(firstName?_eq_some hfirst).2.1, r, hs⟩

lemma isFieldName_field (catalog : Catalog) : IsFieldName catalog.field.toList := by
  cases catalog <;> decide

lemma renameHead_text {p : Spelling .element} {r : List Char} (hp : p.Valid r)
    (hheads : headFinder.Fires [] none p.headMarks) (field : String) :
    renameHead (field.toList ++ [':']) p.text = (p.renamed field).text := by
  have h : (headPass (field.toList ++ [':'])).Rewrites none _ [] _ := Finder.Fires.rewrites hheads
  rw [hp.markedText_headMarks] at h
  exact (renameHead_eq h).trans (hp.swappedText_headMarks field)

lemma catalogVariant_eq_replaceNames {clause : Clause} {p : Spelling .element} (hp : p.Valid [])
    (htext : p.text = clause.text.toList) (hheads : headFinder.Fires [] none p.headMarks)
    (names : List String) (identification : Identification) (catalog : Catalog) :
    catalogVariant clause names identification catalog =
      replaceNamesFrom (longestFirst names) (identifierOf identification catalog) none
        (p.renamed catalog.field).text := by
  have hhead : catalog.fieldHead.toList = catalog.field.toList ++ [':'] := by
    rw [Catalog.fieldHead, String.toList_append]
    rfl
  rw [catalogVariant, ← htext, hhead, renameHead_text hp hheads]
  rfl

end SkyResolver.Query
