import SkyResolver.Proofs.Query.Alignment
import SkyResolver.Proofs.Query.Substitution

/-! Annotations on the text of a spelling. Heads and atoms give their own, and what is between them
has none; so the heads of object fields are marked, and the names that are harvested are gathered.
-/
namespace SkyResolver.Query
open SkyResolver.Text

/-! ### Marks on spellings -/

/-- The text of a spelling with annotations; those of heads and atoms are given. -/
def Spelling.pieces {α : Type} (plain : List Char → List α) (ofHead : Option FieldHead → List α)
    (ofAtom : Bool → Atom → List α) : {k : Rank} → Spelling k → List α
  | _, .atom head value => ofHead head ++ ofAtom head.isSome value
  | _, .group head before inner after =>
    ofHead head ++ (plain ('(' :: before.chars) ++
      (inner.pieces plain ofHead ofAtom ++ plain (after.chars ++ [')'])))
  | _, .modified operand gap modifier number =>
    operand.pieces plain ofHead ofAtom ++ plain (gap.chars ++ modifier.mark :: optionalChars number)
  | _, .bare element => element.pieces plain ofHead ofAtom
  | _, .prefixed op gap operand =>
    plain (signText op ++ gap.chars) ++ operand.pieces plain ofHead ofAtom
  | _, .single operand => operand.pieces plain ofHead ofAtom
  | _, .linked first link rest =>
    first.pieces plain ofHead ofAtom ++ (plain link.text ++ rest.pieces plain ofHead ofAtom)

/-- The heads that the exchange should find. -/
def headMarks : Option FieldHead → List Mark
  | none => []
  | some head =>
    if isObjectField head.name then
      .found (head.name.toList ++ head.before.chars ++ [':']) :: keepAll head.after.chars
    else keepAll head.text

abbrev Spelling.headMarks {k : Rank} (p : Spelling k) : List Mark :=
  p.pieces keepAll Query.headMarks fun _ atom => keepAll atom.text

/-- A reading of annotations gives the text of a spelling if it does so for heads and atoms. -/
lemma Spelling.Valid.text_withHeads (onHead : FieldHead → FieldHead)
    {α : Type} {φ : List α → List Char} {plain : List Char → List α}
    (happend : ∀ pieces pieces', φ (pieces ++ pieces') = φ pieces ++ φ pieces')
    (hplain : ∀ s, φ (plain s) = s) {ofHead : Option FieldHead → List α}
    {ofAtom : Bool → Atom → List α} (hhead : ∀ head, φ (ofHead head) = headText (head.map onHead))
    (hatom : ∀ (colons : Bool) (value : Atom) r, value.Valid colons r →
      φ (ofAtom colons value) = value.text)
    {k : Rank} {p : Spelling k} {r : List Char} (hp : p.Valid r) :
    φ (p.pieces plain ofHead ofAtom) = (p.withHeads onHead).text := by
  induction p generalizing r with
  | atom head value =>
    rw [Spelling.pieces, Spelling.withHeads, Spelling.text, happend, hhead, hatom _ _ _ hp.2]
  | group head before inner after ih =>
    rw [Spelling.pieces, Spelling.withHeads, Spelling.text, happend, happend, happend,
      hhead, hplain, hplain, ih hp.2]
    simp
  | modified operand gap modifier number ih =>
    rw [Spelling.pieces, Spelling.withHeads, Spelling.text, happend, hplain, ih hp.1]
  | bare element ih => exact ih hp
  | prefixed op gap operand ih =>
    rw [Spelling.pieces, Spelling.withHeads, Spelling.text, happend, hplain, ih hp.2,
      List.append_assoc]
  | single operand ih => exact ih hp
  | linked first link rest ihFirst ihRest =>
    rw [Spelling.pieces, Spelling.withHeads, Spelling.text, happend, happend, hplain, ihFirst hp.1,
      ihRest hp.2.2]

lemma withoutQuotes_phrase (u : List Char) : withoutQuotes ('"' :: (u ++ ['"'])) = u := by
  simp [withoutQuotes]

@[simp] lemma markedText_headMarks (head : Option FieldHead) :
    markedText (headMarks head) = headText head := by
  cases head with
  | none => rfl
  | some head =>
    simp only [headMarks, headText]
    split
    · simp [markedText, FieldHead.text]
    · exact markedText_keepAll _

section Texts
variable {k : Rank} {p : Spelling k} {r : List Char}

lemma Spelling.Valid.markedText_headMarks (hp : p.Valid r) : markedText p.headMarks = p.text := by
  rw [Spelling.headMarks, hp.text_withHeads (fun head => head) markedText_append markedText_keepAll,
    Spelling.withHeads_id]
  · exact fun head => by rw [Query.markedText_headMarks, Option.map_id']
  · exact fun _ _ _ _ => markedText_keepAll _

lemma Spelling.Valid.swappedText_headMarks (hp : p.Valid r) (field : String) :
    swappedText (fun _ => field.toList ++ [':']) p.headMarks = (p.renamed field).text := by
  refine hp.text_withHeads _ (swappedText_append _) (swappedText_keepAll _) ?_ ?_
  · intro head
    cases head with
    | none => rfl
    | some head =>
      simp only [Query.headMarks, Option.map_some, headText, FieldHead.renamed]
      split
      · simp [swappedText, FieldHead.text, Gap.empty]
      · exact swappedText_keepAll _ _
  · exact fun _ _ _ _ => swappedText_keepAll _ _

end Texts

/-! ### Names of spellings -/

lemma Tree.names_operation (op : Connective) (trees : List Tree) :
    (Tree.operation op trees).names = trees.flatMap Tree.names := by
  rw [Tree.names]
  induction trees with
  | nil => rfl
  | cons tree trees ih => rw [Tree.namesOfAll, ih, List.flatMap_cons]

/-- The names that are harvested from the words and phrases of a spelling. -/
def Spelling.names : {k : Rank} → Bool → Spelling k → List String
  | _, harvest, .atom head value => if harvestBelow head harvest then value.tree.names else []
  | _, harvest, .group head _ inner _ => inner.names (harvestBelow head harvest)
  | _, harvest, .modified operand _ _ _ => operand.names harvest
  | _, harvest, .bare element => element.names harvest
  | _, harvest, .prefixed _ _ operand => operand.names harvest
  | _, harvest, .single operand => operand.names harvest
  | _, harvest, .linked first _ rest => first.names harvest ++ rest.names harvest

/-- The names of a spelling are those that are harvested from its tree. -/
theorem Spelling.names_eq {k : Rank} (p : Spelling k) (harvest : Bool) (total : Nat)
    (r : List Char) :
    p.names harvest = if harvest then (p.tree total r).names else [] := by
  induction p generalizing harvest r with
  | atom head value =>
    rw [Spelling.tree, Spelling.joined, Joined.tree_single, Spelling.names]
    cases head with
    | none => simp [named, harvestBelow]
    | some head => cases harvest <;> by_cases h : isObjectField head.name <;>
        simp [named, harvestBelow, Tree.names, h]
  | group head before inner after ih =>
    rw [Spelling.tree, Spelling.joined, Joined.tree_single, Spelling.names,
      ih (harvestBelow head harvest) (after.chars ++ ')' :: r)]
    cases head with
    | none => simp [named, harvestBelow, Tree.names, Spelling.tree]
    | some head => cases harvest <;> by_cases h : isObjectField head.name <;>
        simp [named, harvestBelow, Tree.names, Spelling.tree, h]
  | modified operand gap modifier number ih =>
    rw [Spelling.names, ih harvest (gap.chars ++ modifier.mark :: (optionalChars number ++ r)),
      Spelling.tree, Spelling.tree, Spelling.joined, Joined.tree_single]
    cases modifier <;> rfl
  | bare element ih => exact ih harvest r
  | prefixed op gap operand ih =>
    rw [Spelling.names, ih harvest r, Spelling.tree, Spelling.tree, Spelling.joined,
      Joined.tree_single, Tree.names]
  | single operand ih => exact ih harvest r
  | linked first link rest ihFirst ihRest =>
    have htree : (Spelling.linked first link rest).tree total r =
        (link.attach (first.tree total (link.text ++ (rest.text ++ r)))
          (rest.joined total r)).tree :=
      rfl
    rw [Spelling.names, htree, Link.gather_attach Tree.names_operation,
      ihFirst harvest (link.text ++ (rest.text ++ r)), ihRest harvest r]
    cases harvest <;> rfl

end SkyResolver.Query
