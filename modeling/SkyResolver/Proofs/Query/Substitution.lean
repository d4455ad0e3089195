import SkyResolver.Proofs.Query.Places

/-! Identifiers in place of names. On the tree of a clause the object fields get the catalog's
field, and the words and phrases that are harvested get identifiers; on its spelling the same is
done to heads and atoms, between which everything stays. -/
namespace SkyResolver.Query
open SkyResolver.Text

/-! ### Substitution on trees -/

def leftMargin (s : List Char) : List Char := s.takeWhile isBlank

def rightMargin (s : List Char) : List Char := ((trimStart s).reverse.takeWhile isBlank).reverse

lemma margins (s : List Char) : leftMargin s ++ (trim s ++ rightMargin s) = s := by
  have hright : trim s ++ rightMargin s = trimStart s := by
    rw [trim, trimEnd, rightMargin, ← List.reverse_append, List.takeWhile_append_dropWhile,
      List.reverse_reverse]
  rw [hright, leftMargin, trimStart, List.takeWhile_append_dropWhile]

/-- The text with an identifier for the name in it; the blanks around the name stay. -/
def identifiedText (identify : List Char → List Char) (s : List Char) : List Char :=
  if trim s = [] then s else leftMargin s ++ (identify (trim s) ++ rightMargin s)

section Substitution
variable (field : String) (identify : List Char → List Char)
  (elsewhere : List Char → List Char → Prop)

/-- What may become of a text, depending on whether it is harvested. -/
def TextSubstituted (harvest : Bool) (s t : List Char) : Prop :=
  if harvest then t = identifiedText identify s else elsewhere s t

mutual

/-- The second tree is the first one with its object fields renamed and with identifiers for the
words and phrases that are harvested. The words and phrases in ranges and below other fields are
related as `elsewhere` says, and spans may differ. -/
inductive Tree.Substituted : Bool → Tree → Tree → Prop where
  | word {harvest : Bool} {text text' : String}
      (h : TextSubstituted identify elsewhere harvest text.toList text'.toList) :
      Tree.Substituted harvest (.word text) (.word text')
  | phrase {harvest : Bool} {text text' : String} {t : List Char}
      (h : TextSubstituted identify elsewhere harvest (withoutQuotes text.toList) t)
      (htext : text'.toList = '"' :: (t ++ ['"'])) : Tree.Substituted harvest (.phrase text)
      (.phrase text')
  | field {harvest : Bool} {name : String} {value value' : Tree} (span span' : Span)
      (h : Tree.Substituted (harvest && isObjectField name) value value') :
      Tree.Substituted harvest (.field name value span)
        (.field (if isObjectField name then field else name) value' span')
  | group {harvest : Bool} {inner inner' : Tree} (h : Tree.Substituted harvest inner inner') :
      Tree.Substituted harvest (.group inner) (.group inner')
  | fieldGroup {harvest : Bool} {inner inner' : Tree} (h : Tree.Substituted harvest inner inner') :
      Tree.Substituted harvest (.fieldGroup inner) (.fieldGroup inner')
  | operation {harvest : Bool} (op : Connective) {trees trees' : List Tree}
      (h : Tree.SubstitutedAll harvest trees trees') :
      Tree.Substituted harvest (.operation op trees) (.operation op trees')
  | prefixed {harvest : Bool} (op : PrefixOp) {operand operand' : Tree}
      (h : Tree.Substituted harvest operand operand') :
      Tree.Substituted harvest (.prefixed op operand) (.prefixed op operand')
  | boost {harvest : Bool} {operand operand' : Tree} (factor : Option String)
      (h : Tree.Substituted harvest operand operand') :
      Tree.Substituted harvest (.boost operand factor) (.boost operand' factor)
  | approx {harvest : Bool} {operand operand' : Tree} (degree : Option String)
      (h : Tree.Substituted harvest operand operand') :
      Tree.Substituted harvest (.approx operand degree) (.approx operand' degree)
  | range {harvest : Bool} {low low' high high' : Tree} (includeLow includeHigh : Bool)
      (hlow : Tree.Substituted false low low') (hhigh : Tree.Substituted false high high') :
      Tree.Substituted harvest (.range low high includeLow includeHigh)
        (.range low' high' includeLow includeHigh)

inductive Tree.SubstitutedAll : Bool → List Tree → List Tree → Prop where
  | nil {harvest : Bool} : Tree.SubstitutedAll harvest [] []
  | cons {harvest : Bool} {tree tree' : Tree} {trees trees' : List Tree}
      (first : Tree.Substituted harvest tree tree')
      (rest : Tree.SubstitutedAll harvest trees trees') :
      Tree.SubstitutedAll harvest (tree :: trees) (tree' :: trees')

end

end Substitution

/-! ### Spans -/

section Spans
variable {field : String} {identify : List Char → List Char}
  {elsewhere : List Char → List Char → Prop}

mutual

/-- Spans play no role in the tree in which is substituted. -/
theorem Tree.Substituted.congr {harvest : Bool} {tree tree₂ tree' : Tree}
    (hspans : tree.withoutSpans = tree₂.withoutSpans) :
    tree.Substituted field identify elsewhere harvest tree' →
      tree₂.Substituted field identify elsewhere harvest tree'
  | .word h => by
    cases tree₂ <;> cases hspans
    exact .word h
  | .phrase h htext => by
    cases tree₂ <;> cases hspans
    exact .phrase h htext
  | .field span span' h => by
    cases tree₂ <;> simp only [Tree.withoutSpans, reduceCtorEq, Tree.field.injEq] at hspans
    obtain ⟨rfl, hvalue, -⟩ := hspans
    exact .field _ span' (h.congr hvalue)
  | .group h => by
    cases tree₂ <;> simp only [Tree.withoutSpans, reduceCtorEq, Tree.group.injEq] at hspans
    exact .group (h.congr hspans)
  | .fieldGroup h => by
    cases tree₂ <;> simp only [Tree.withoutSpans, reduceCtorEq, Tree.fieldGroup.injEq] at hspans
    exact .fieldGroup (h.congr hspans)
  | .operation op h => by
    rw [withoutSpans_operation] at hspans
    cases tree₂ with
    | operation op₂ trees₂ =>
      rw [withoutSpans_operation, Tree.operation.injEq] at hspans
      obtain ⟨rfl, htrees⟩ := hspans
      exact .operation op (h.congr htrees)
    | _ => cases hspans
  | .prefixed op h => by
    cases tree₂ <;> simp only [Tree.withoutSpans, reduceCtorEq, Tree.prefixed.injEq] at hspans
    obtain ⟨rfl, hoperand⟩ := hspans
    exact .prefixed op (h.congr hoperand)
  | .boost factor h => by
    cases tree₂ <;> simp only [Tree.withoutSpans, reduceCtorEq, Tree.boost.injEq] at hspans
    obtain ⟨hoperand, rfl⟩ := hspans
    exact .boost factor (h.congr hoperand)
  | .approx degree h => by
    cases tree₂ <;> simp only [Tree.withoutSpans, reduceCtorEq, Tree.approx.injEq] at hspans
    obtain ⟨hoperand, rfl⟩ := hspans
    exact .approx degree (h.congr hoperand)
  | .range includeLow includeHigh hlow hhigh => by
    cases tree₂ <;> simp only [Tree.withoutSpans, reduceCtorEq, Tree.range.injEq] at hspans
    obtain ⟨hlow', hhigh', rfl, rfl⟩ := hspans
    exact .range includeLow includeHigh (hlow.congr hlow') (hhigh.congr hhigh')

theorem Tree.SubstitutedAll.congr {harvest : Bool} {trees trees₂ trees' : List Tree}
    (hspans : trees.map Tree.withoutSpans = trees₂.map Tree.withoutSpans) :
    Tree.SubstitutedAll field identify elsewhere harvest trees trees' →
      Tree.SubstitutedAll field identify elsewhere harvest trees₂ trees'
  | .nil => by
    cases trees₂ with
    | nil => exact .nil
    | cons => cases hspans
  | .cons first rest => by
    cases trees₂ with
    | nil => cases hspans
    | cons tree₂ trees₂ =>
      obtain ⟨hfirst, hrest⟩ := List.cons.inj hspans
      exact .cons (first.congr hfirst) (rest.congr hrest)

end

end Spans
/-! ### Chains -/

section Chains
variable {field : String} {identify : List Char → List Char}
  {elsewhere : List Char → List Char → Prop} {harvest : Bool}

/-- The operands of chains are related one by one. -/
structure Joined.Substituted (field : String) (identify : List Char → List Char)
    (elsewhere : List Char → List Char → Prop) (harvest : Bool) (joined joined' : Joined) :
    Prop where
  conjuncts : Tree.SubstitutedAll field identify elsewhere harvest joined.conjuncts
    joined'.conjuncts
  members : Tree.SubstitutedAll field identify elsewhere harvest joined.members
    joined'.members
  disjuncts : Tree.SubstitutedAll field identify elsewhere harvest joined.disjuncts
    joined'.disjuncts

lemma substituted_ofOperands (op : Connective) {trees trees' : List Tree}
    (h : Tree.SubstitutedAll field identify elsewhere harvest trees trees') :
    (Tree.ofOperands op trees).Substituted field identify elsewhere harvest
      (Tree.ofOperands op trees') := by
  cases h with
  | nil => exact .operation op .nil
  | cons hfirst hrest =>
    cases hrest with
    | nil => exact hfirst
    | cons hsecond hrest => exact .operation op (.cons hfirst (.cons hsecond hrest))

variable {joined joined' : Joined} (h : joined.Substituted field identify elsewhere harvest joined')

lemma Joined.Substituted.single {tree tree' : Tree}
    (h : tree.Substituted field identify elsewhere harvest tree') :
    (Joined.single tree).Substituted field identify elsewhere harvest (.single tree') :=
  ⟨.cons h .nil, .nil, .nil⟩

include h

lemma Joined.Substituted.juxtaposition :
    Tree.SubstitutedAll field identify elsewhere harvest joined.juxtaposition
      joined'.juxtaposition := .cons (substituted_ofOperands .and h.conjuncts) h.members

lemma Joined.Substituted.alternatives :
    Tree.SubstitutedAll field identify elsewhere harvest joined.alternatives
      joined'.alternatives := .cons (substituted_ofOperands .implicit h.juxtaposition) h.disjuncts

lemma Joined.Substituted.tree :
    joined.tree.Substituted field identify elsewhere harvest joined'.tree :=
  substituted_ofOperands .or h.alternatives

lemma Joined.Substituted.attach (link : Link) {tree tree' : Tree}
    (htree : tree.Substituted field identify elsewhere harvest tree') :
    (link.attach tree joined).Substituted field identify elsewhere harvest
      (link.attach tree' joined') := by
  cases link with
  | and => exact ⟨.cons htree h.conjuncts, h.members, h.disjuncts⟩
  | beside => exact ⟨.cons htree .nil, h.juxtaposition, h.disjuncts⟩
  | or => exact ⟨.cons htree .nil, .nil, h.alternatives⟩

end Chains

/-! ### Heads -/

def FieldHead.renamed (field : String) (head : FieldHead) : FieldHead :=
  if isObjectField head.name then ⟨field, .empty, head.after⟩ else head

/-- Whether names are harvested below a head. -/
def harvestBelow (head : Option FieldHead) (harvest : Bool) : Bool :=
  harvest && head.all fun head => isObjectField head.name

/-- The spans of the fields may differ, and so may what stands in them. -/
lemma substituted_named {field : String} {identify : List Char → List Char}
    {elsewhere : List Char → List Char → Prop} (head : Option FieldHead) {harvest : Bool}
    (span span' : Span) {plain plain' value value' : Tree}
    (hplain : plain.Substituted field identify elsewhere (harvestBelow head harvest) plain')
    (hvalue : value.Substituted field identify elsewhere (harvestBelow head harvest) value') :
    (named head span plain value).Substituted field identify elsewhere harvest
      (named (head.map (FieldHead.renamed field)) span' plain' value') := by
  cases head with
  | none => simpa [named, harvestBelow] using hplain
  | some head =>
    have hname : (head.renamed field).name = if isObjectField head.name then field else
        head.name := by
      unfold FieldHead.renamed
      split <;> rfl
    rw [Option.map_some, named, named, hname]
    rw [harvestBelow, Option.all_some] at hvalue
    exact .field span span' hvalue

/-- The spelling with other heads. -/
def Spelling.withHeads (onHead : FieldHead → FieldHead) : {k : Rank} → Spelling k → Spelling k
  | _, .atom head value => .atom (head.map onHead) value
  | _, .group head before inner after =>
    .group (head.map onHead) before (inner.withHeads onHead) after
  | _, .modified operand gap modifier number =>
    .modified (operand.withHeads onHead) gap modifier number
  | _, .bare element => .bare (element.withHeads onHead)
  | _, .prefixed op gap operand => .prefixed op gap (operand.withHeads onHead)
  | _, .single operand => .single (operand.withHeads onHead)
  | _, .linked first link rest => .linked (first.withHeads onHead) link (rest.withHeads onHead)

/-- The spelling with its object fields renamed. -/
abbrev Spelling.renamed (field : String) {k : Rank} (p : Spelling k) : Spelling k :=
  p.withHeads (FieldHead.renamed field)

lemma Spelling.withHeads_id {k : Rank} (p : Spelling k) : p.withHeads (fun head => head) = p := by
  induction p with
  | atom head value => simp [Spelling.withHeads]
  | group head before inner after ih => simp [Spelling.withHeads, ih]
  | modified operand gap modifier number ih => simp [Spelling.withHeads, ih]
  | bare element ih => simp [Spelling.withHeads, ih]
  | prefixed op gap operand ih => simp [Spelling.withHeads, ih]
  | single operand ih => simp [Spelling.withHeads, ih]
  | linked first link rest ihFirst ihRest => simp [Spelling.withHeads, ihFirst, ihRest]

theorem Spelling.Revises.withHeads (onHead : FieldHead → FieldHead)
    (hhead : ∀ head : Option FieldHead, HeadRevises head (head.map onHead)) {k : Rank}
    (p : Spelling k) : p.Revises (p.withHeads onHead) ∧ p.Tame (p.withHeads onHead) := by
  induction p with
  | atom head value =>
    refine ⟨.atom (hhead head) (.refl _ value), ?_⟩
    cases head with
    | none => exact .atom value
    | some head => exact .named _ _ value
  | group head before inner after ih =>
    exact ⟨.group _ _ _ _ (hhead head) ih.1, .group _ _ _ _ _⟩
  | modified operand gap modifier number ih =>
    exact ⟨.modified _ _ _ _ ih.1, ih.2.modified _ _ _⟩
  | bare element ih => exact ⟨.bare ih.1, ih.2⟩
  | prefixed op gap operand ih =>
    exact ⟨.prefixed _ _ _ (fun _ => .inl rfl) ih.1, .prefixed _ _ _ _⟩
  | single operand ih => exact ⟨.single ih.1, ih.2⟩
  | linked first link rest ihFirst ihRest =>
    exact ⟨.linked ihFirst.1 (.inl rfl) ihRest.1 fun _ _ => ihRest.2, ihFirst.2.linked _ _ _⟩

theorem Spelling.Revises.refl {k : Rank} (p : Spelling k) : p.Revises p := by
  have hsame := (Spelling.Revises.withHeads (fun head => head) (fun _ => ⟨by simp, by simp⟩) p).1
  rwa [Spelling.withHeads_id] at hsame

lemma Spelling.Tame.refl {k : Rank} (p : Spelling k) : p.Tame p := by
  have hsame := (Spelling.Revises.withHeads (fun head => head) (fun _ => ⟨by simp, by simp⟩) p).2
  rwa [Spelling.withHeads_id] at hsame

/-- A spelling that is valid somewhere is valid at the end of a text. -/
theorem Spelling.Valid.at_end {k : Rank} {p : Spelling k} {r : List Char} (h : p.Valid r) :
    p.Valid [] :=
  (Spelling.Revises.refl p).valid h
    ⟨fun _ => rfl, fun _ => rfl, fun _ => Halts.startsOperand (.inl rfl)⟩
    fun _ => .of_false ⟨rfl, rfl⟩

end SkyResolver.Query
