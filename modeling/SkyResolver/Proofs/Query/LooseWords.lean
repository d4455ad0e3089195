import SkyResolver.Proofs.Query.Alternatives
import SkyResolver.Proofs.Query.Composition

/-! Words as operands. A word that is not the whole value of a field stands by itself in a query, so
it is one of the words that the grammar reads where nothing else stands. -/
namespace SkyResolver.Query
open SkyResolver.Text

mutual

/-- The words of a tree that are operands, in order; the value of a field has some if it is in
parentheses. -/
def Tree.looseWords : Tree → List String
  | .word text => [text]
  | .phrase _ => []
  | .field _ (.fieldGroup inner) _ => inner.looseWords
  | .field _ _ _ => []
  | .group inner => inner.looseWords
  | .fieldGroup inner => inner.looseWords
  | .operation _ operands => Tree.looseWordsOfAll operands
  | .prefixed _ operand => operand.looseWords
  | .boost operand _ => operand.looseWords
  | .approx operand _ => operand.looseWords
  | .range _ _ _ _ => []

/-- The words of several trees that are operands, in order. -/
def Tree.looseWordsOfAll : List Tree → List String
  | [] => []
  | tree :: trees => tree.looseWords ++ Tree.looseWordsOfAll trees

end

lemma Tree.looseWords_operation (op : Connective) (trees : List Tree) :
    (Tree.operation op trees).looseWords = trees.flatMap Tree.looseWords := by
  rw [Tree.looseWords]
  induction trees with
  | nil => rfl
  | cons tree trees ih => rw [Tree.looseWordsOfAll, ih, List.flatMap_cons]

/-- The operands of an accepted query that are words are words by themselves. -/
theorem Spelling.Valid.looseWords {k : Rank} {p : Spelling k} {r : List Char} (h : p.Valid r)
    (total : Nat) :
    ∀ word ∈ (p.tree total r).withoutSpans.looseWords, IsTerm false word.toList := by
  have hgather : ∀ op trees, (Tree.operation op trees).withoutSpans.looseWords =
      trees.flatMap fun tree => tree.withoutSpans.looseWords := fun op trees => by
    rw [withoutSpans_operation, Tree.looseWords_operation, List.flatMap_map]
  induction p generalizing r with
  | atom head value =>
    cases head with
    | none =>
      cases value with
      | word text => exact List.forall_mem_singleton.2 h.2.1
      | phrase text => exact List.forall_mem_nil _
      | range => exact List.forall_mem_nil _
    | some head => cases value <;> exact List.forall_mem_nil _
  | group head before inner after ih => cases head <;> exact ih h.2
  | modified operand gap modifier number ih => cases modifier <;> exact ih h.1
  | bare element ih => exact ih h
  | prefixed op gap operand ih => exact ih h.2
  | single operand ih => exact ih h
  | linked first link rest ihFirst ihRest =>
    have htree : (Spelling.linked first link rest).tree total r =
        (link.attach (first.tree total (link.text ++ (rest.text ++ r)))
          (rest.joined total r)).tree := rfl
    rw [htree, Link.gather_attach (f := fun tree => tree.withoutSpans.looseWords) hgather,
      List.forall_mem_append]
    exact ⟨ihFirst h.1, ihRest h.2.2⟩

/-- A text is read as one word exactly if it is a word by itself. -/
theorem ofChars?_eq_word_iff {word : String} :
    Tree.ofChars? word.toList = some (.word word) ↔ IsTerm false word.toList := by
  constructor
  · intro h
    obtain ⟨before, after, p, -, hvalid, htree⟩ := exists_spelling h
    refine hvalid.looseWords (byteLength word.toList) word ?_
    rw [htree]
    exact List.mem_singleton_self word
  · intro h
    have hvalid : (Spelling.single (.bare (.atom none (.word word)))).Valid Gap.empty.chars :=
      ⟨by simp, h, rfl, rfl⟩
    have htext : Gap.empty.chars ++ ((Spelling.single (.bare (.atom none (.word word)))).text ++
        Gap.empty.chars) = word.toList := List.append_nil _
    have hchars := Spelling.ofChars? .empty .empty hvalid
    rwa [htext] at hchars

lemma IsNumeral.isTerm {id : String} (h : IsNumeral id) : IsTerm false id.toList := by
  obtain ⟨hne, hdigits⟩ := h
  refine isTerm_of_isPlain false (fun c hc => isPlain_of_isDigit (hdigits c hc)) hne
    (fun c hc => ?_) ?_
  · have hdigit := hdigits c (List.mem_of_mem_head? hc)
    constructor <;>
    · rintro rfl
      cases hdigit
  · refine ⟨fun h => ?_, fun h => ?_, fun h => ?_⟩
    · cases hdigits 'A' (by simp [h])
    · cases hdigits 'O' (by simp [h])
    · cases hdigits 'N' (by simp [h])

end SkyResolver.Query
