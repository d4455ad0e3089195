import SkyResolver.Proofs.Query.Confinement
import SkyResolver.Proofs.Query.ObjectFields
import SkyResolver.Proofs.Query.Standing

/-! The variant of a clause as a tree. Where heads and names stand as they should, the two passes
over the text of a clause do what the substitution does on its tree. -/
namespace SkyResolver.Query
open SkyResolver.Text

/-! ### Variants of clauses -/

def Atom.isWord : Atom → Bool
  | .word _ => true
  | _ => false

/-- The words that are harvested are set apart in the spelling with its heads exchanged, which
stands behind `previous` and in front of `r`. -/
def Spelling.WordsApart (field : String) : {k : Rank} → Bool → Option Char → List Char →
    Spelling k → Prop
  | _, harvest, previous, r, .atom head value =>
    harvestBelow head harvest = true → value.isWord = true →
      (lastOf previous (headText (head.map (FieldHead.renamed field)))).all opensName = true ∧
        r.head?.all closesName = true
  | _, harvest, _, r, .group head before inner after =>
    inner.WordsApart field (harvestBelow head harvest) (lastOf (some '(') before.chars)
      (after.chars ++ ')' :: r)
  | _, harvest, previous, r, .modified operand gap modifier number =>
    operand.WordsApart field harvest previous
      (gap.chars ++ modifier.mark :: (optionalChars number ++ r))
  | _, harvest, previous, r, .bare element => element.WordsApart field harvest previous r
  | _, harvest, previous, r, .prefixed op gap operand =>
    operand.WordsApart field harvest (lastOf previous (signText op ++ gap.chars)) r
  | _, harvest, previous, r, .single operand => operand.WordsApart field harvest previous r
  | _, harvest, previous, r, .linked first link rest =>
    first.WordsApart field harvest previous (link.text ++ ((rest.renamed field).text ++ r)) ∧
      rest.WordsApart field harvest
        (lastOf (lastOf previous (first.renamed field).text) link.text) r

instance Spelling.decidableWordsApart (field : String) : {k : Rank} → (harvest : Bool) →
    (previous : Option Char) → (r : List Char) → (p : Spelling k) →
    Decidable (p.WordsApart field harvest previous r)
  | _, _, _, _, .atom _ _ => inferInstanceAs (Decidable (_ → _ → _))
  | _, _, _, _, .group _ _ inner _ => inner.decidableWordsApart field _ _ _
  | _, _, _, _, .modified operand _ _ _ => operand.decidableWordsApart field _ _ _
  | _, _, _, _, .bare element => element.decidableWordsApart field _ _ _
  | _, _, _, _, .prefixed _ _ operand => operand.decidableWordsApart field _ _ _
  | _, _, _, _, .single operand => operand.decidableWordsApart field _ _ _
  | _, harvest, previous, r, .linked first link rest =>
    have := first.decidableWordsApart field harvest previous
      (link.text ++ ((rest.renamed field).text ++ r))
    have := rest.decidableWordsApart field harvest
      (lastOf (lastOf previous (first.renamed field).text) link.text) r
    inferInstanceAs (Decidable (_ ∧ _))

/-- If the names of a spelling are listed and its words are set apart, to exchange its heads and
rewrite it is to substitute in its tree. -/
theorem Spelling.Rewritten.substituted {names : List String} {put : List Char → List Char}
    (htrimmed : ∀ name ∈ names, IsTrimmed name.toList) {field : String} {k : Rank}
    {p p' : Spelling k} {harvest : Bool} {previous : Option Char} {r : List Char}
    (h : (p.renamed field).Rewritten (namePass (longestFirst names) put) previous r p')
    (hwords : p.WordsApart field harvest previous r)
    (hlisted : ∀ name ∈ p.names harvest, name ∈ names) (total total' : Nat) (s s' : List Char) :
    (p.joined total s).Substituted field put (NamesReplaced names put) harvest
      (p'.joined total' s') := by
  induction p generalizing harvest previous r s s' with
  | atom head value =>
    obtain ⟨value', rfl, hvalue⟩ := h
    have hsubstituted := hvalue.substituted field htrimmed (fun hharvest text htext => by
      obtain rfl : value = .word text := htext
      exact hwords hharvest rfl) hlisted
    exact .single (substituted_named head _ _ hsubstituted hsubstituted)
  | group head before inner after ih =>
    obtain ⟨inner', rfl, hinner⟩ := h
    have hsubstituted := (ih hinner hwords hlisted
      (after.chars ++ ')' :: s) (after.chars ++ ')' :: s')).tree
    exact .single (substituted_named head _ _ (.group hsubstituted) (.fieldGroup hsubstituted))
  | modified operand gap modifier number ih =>
    obtain ⟨operand', rfl, hoperand⟩ := h
    have hsubstituted := (ih hoperand hwords hlisted
      (gap.chars ++ modifier.mark :: (optionalChars number ++ s))
      (gap.chars ++ modifier.mark :: (optionalChars number ++ s'))).tree
    cases modifier with
    | boost => exact .single (.boost _ hsubstituted)
    | approx => exact .single (.approx _ hsubstituted)
  | bare element ih =>
    obtain ⟨element', rfl, helement⟩ := h
    exact ih helement hwords hlisted s s'
  | prefixed op gap operand ih =>
    obtain ⟨operand', rfl, hoperand⟩ := h
    exact .single (.prefixed op (ih hoperand hwords hlisted s s').tree)
  | single operand ih =>
    obtain ⟨operand', rfl, hoperand⟩ := h
    exact ih hoperand hwords hlisted s s'
  | linked first link rest ihFirst ihRest =>
    obtain ⟨first', rest', rfl, hfirst, hrest⟩ := h
    have hboth : ∀ name ∈ first.names harvest ++ rest.names harvest, name ∈ names := hlisted
    exact (ihRest hrest hwords.2
      (fun name hname => hboth name (List.mem_append_right _ hname)) s s').attach
      link (ihFirst hfirst hwords.1
        (fun name hname => hboth name (List.mem_append_left _ hname)) _ _).tree

/-- The heads of object fields stand where fields start, and in the clause for each target the
listed names stand in lexemes. -/
structure Spelling.Legible (p : Spelling .element) (names : List String) (targets : List Catalog) :
    Prop where
  heads : HeadsStand none p.tokens
  symbols : ∀ word ∈ p.looseWords, SymbolKept names word.toList
  names : ∀ catalog ∈ targets,
    StandOn names InLexeme [] (Token.groundOf (p.renamed catalog.field).tokens)

lemma Spelling.looseWords_renamed (field : String) {k : Rank} (p : Spelling k) :
    (p.renamed field).looseWords = p.looseWords := by
  induction p with
  | atom head value => cases head <;> cases value <;> rfl
  | group head before inner after ih => exact ih
  | modified operand gap modifier number ih => exact ih
  | bare element ih => exact ih
  | prefixed op gap operand ih => exact ih
  | single operand ih => exact ih
  | linked first link rest ihFirst ihRest => exact congrArg₂ (· ++ ·) ihFirst ihRest

/-- In a legible clause the passes find what is in its tree. -/
theorem Spelling.Legible.fits {p : Spelling .element} {names : List String} {targets : List Catalog}
    (hp : p.Valid []) (h : p.Legible names targets) : p.Fits names targets := by
  refine ⟨hp.fires_headMarks (by simp) h.heads, fun catalog hcatalog => ?_⟩
  have hrenamed : (p.renamed catalog.field).Valid (Ground.text []) :=
    hp.renamed catalog.field (isFieldName_field catalog) [] (.refl []) (.refl [])
  have hstand : StandOn names InLexeme []
      (Token.groundOf (p.renamed catalog.field).tokens ++ []) := by
    simpa using h.names catalog hcatalog
  refine hrenamed.confined_rooms nofun hstand fun word hword => h.symbols word ?_
  rwa [p.looseWords_renamed] at hword

/-- An element that is valid at the end of a text is read from its text. -/
lemma Spelling.Valid.ofChars? {p : Spelling .element} (hp : p.Valid []) :
    Tree.ofChars? p.text = some (p.tree (byteLength p.text) []) := by
  have := Spelling.ofChars? .empty .empty (p := .single (.bare p)) hp
  rwa [Gap.empty, List.append_nil, List.nil_append] at this

/-- The variant of a legible clause has a spelling, which is the clause with its heads exchanged and
its atoms rewritten. -/
lemma Spelling.Legible.exists_rewritten {clause : Clause} {p : Spelling .element} (hp : p.Valid [])
    (htext : p.text = clause.text.toList) {names : List String} {identification : Identification}
    {catalog : Catalog} (hid : ∀ name id, identification catalog name = some id → IsNumeral id)
    (h : p.Legible names [catalog]) : ∃ p' : Spelling .element, p'.Valid [] ∧
      catalogVariant clause names identification catalog = p'.text ∧
      (p.renamed catalog.field).Rewritten
        (namePass (longestFirst names) (identifierOf identification catalog)) none [] p' := by
  have hfits := h.fits hp
  have hrenamed : (p.renamed catalog.field).Valid [] :=
    hp.renamed catalog.field (isFieldName_field catalog) [] (.refl []) (.refl [])
  have hpass := namePass_gentle (longestFirst names) (identifierOf_digits hid)
  obtain ⟨p', hrewrites, hrewritten⟩ :=
    hrenamed.exists_rewritten hpass (hfits.names catalog (List.mem_singleton_self _))
  refine ⟨p', (hrewritten.revises hpass hrenamed).1.valid hrenamed ⟨id, id, id⟩ fun _ => ⟨id, id⟩,
    ?_, hrewritten⟩
  rw [catalogVariant_eq_replaceNames hp htext hfits.heads]
  exact replaceNamesFrom_eq hrewrites

section Elsewhere
variable {field : String} {identify : List Char → List Char}
  {elsewhere : List Char → List Char → Prop} {harvest : Bool} {tree' : Tree}

end Elsewhere

end SkyResolver.Query
