import SkyResolver.Proofs.Query.Openings

/-! Spellings: what a query is made of, blanks and operators included, with the nesting that the
grammar gives it. A spelling has a text, and it has a tree once the text behind it is known, since
fields keep their place. It is valid in front of a text when its lexemes end where the grammar ends
them. -/
namespace SkyResolver.Query
open SkyResolver.Text

/-- Blanks between lexemes. -/
structure Gap where
  chars : List Char
  blank : IsGap chars

/-- No blanks. -/
def Gap.empty : Gap := ⟨[], isGap_nil⟩

/-- A single blank. -/
def Gap.one : Gap := ⟨[' '], by simp [IsGap, isGap]⟩

/-- The blanks of two gaps, one after the other. -/
def Gap.append (first second : Gap) : Gap where
  chars := first.chars ++ second.chars
  blank c hc := (List.mem_append.1 hc).elim (first.blank c) (second.blank c)

/-- One bound of a range. -/
inductive Bound where
  | word (text : String)
  | phrase (text : String)

/-- A word, a phrase or a range. -/
inductive Atom where
  | word (text : String)
  | phrase (text : String)
  | range (includeLow includeHigh : Bool) (g₁ : Gap) (low : Bound) (g₂ g₃ : Gap) (high : Bound)
    (g₄ : Gap)

/-- The name of a field with its colon and the blanks on both sides of it. -/
structure FieldHead where
  name : String
  before : Gap
  after : Gap

/-- What may follow an element. -/
inductive Modifier where
  | boost
  | approx

/-- What stands between two operands. -/
inductive Link where
  | and (before : Gap) (keyword : Bool) (after : Gap)
  | beside (gap : Gap)
  | or (before after : Gap)

/-- How tightly a spelling binds. -/
inductive Rank where
  | element
  | operand
  | chain

/-- The spelling of a query or a part of one. -/
inductive Spelling : Rank → Type where
  | atom (head : Option FieldHead) (value : Atom) : Spelling .element
  | group (head : Option FieldHead) (before : Gap) (inner : Spelling .chain) (after : Gap) :
      Spelling .element
  | modified (operand : Spelling .element) (gap : Gap) (modifier : Modifier)
      (number : Option String) : Spelling .element
  | bare (element : Spelling .element) : Spelling .operand
  | prefixed (op : PrefixOp) (gap : Gap) (operand : Spelling .operand) : Spelling .operand
  | single (operand : Spelling .operand) : Spelling .chain
  | linked (first : Spelling .operand) (link : Link) (rest : Spelling .chain) : Spelling .chain

/-! ### Texts -/

def Bound.text : Bound → List Char
  | .word text => text.toList
  | .phrase text => text.toList

def Atom.text : Atom → List Char
  | .word text => text.toList
  | .phrase text => text.toList
  | .range includeLow includeHigh g₁ low g₂ g₃ high g₄ =>
    openingBracket includeLow :: (g₁.chars ++ (low.text ++ (g₂.chars ++ 'T' :: 'O' ::
      (g₃.chars ++ (high.text ++ (g₄.chars ++ [closingBracket includeHigh]))))))

def FieldHead.text (head : FieldHead) : List Char :=
  head.name.toList ++ head.before.chars ++ ':' :: head.after.chars

/-- The text of a head, if there is one. -/
def headText : Option FieldHead → List Char
  | none => []
  | some head => head.text

def Modifier.mark : Modifier → Char
  | .boost => '^'
  | .approx => '~'

/-- The sign or keyword of a prefix. -/
def signText : PrefixOp → List Char
  | .not => ['N', 'O', 'T']
  | .plus => ['+']
  | .minus => ['-']

/-- What stands for `AND`: the keyword or the symbol. -/
def andText (keyword : Bool) : List Char := if keyword then ['A', 'N', 'D'] else ['&', '&']

def Link.text : Link → List Char
  | .and before keyword after => before.chars ++ (andText keyword ++ after.chars)
  | .beside gap => gap.chars
  | .or before after => before.chars ++ 'O' :: 'R' :: after.chars

def Spelling.text : {k : Rank} → Spelling k → List Char
  | _, .atom head value => headText head ++ value.text
  | _, .group head before inner after =>
    headText head ++ '(' :: (before.chars ++ (inner.text ++ (after.chars ++ [')'])))
  | _, .modified operand gap modifier number =>
    operand.text ++ (gap.chars ++ modifier.mark :: optionalChars number)
  | _, .bare element => element.text
  | _, .prefixed op gap operand => signText op ++ (gap.chars ++ operand.text)
  | _, .single operand => operand.text
  | _, .linked first link rest => first.text ++ (link.text ++ rest.text)

/-! ### Trees -/

def Bound.tree : Bound → Tree
  | .word text => .word text
  | .phrase text => .phrase text

def Atom.tree : Atom → Tree
  | .word text => .word text
  | .phrase text => .phrase text
  | .range includeLow includeHigh _ low _ _ high _ =>
    .range low.tree high.tree includeLow includeHigh

def Modifier.apply (modifier : Modifier) (operand : Tree) (number : Option String) : Tree :=
  match modifier with
  | .boost => .boost operand number
  | .approx => .approx operand number

/-- The operands of a chain, sorted by how tightly they are joined to the first one: its conjuncts,
the other members of its juxtaposition, and the other disjuncts. -/
structure Joined where
  conjuncts : List Tree
  members : List Tree
  disjuncts : List Tree

def Joined.single (tree : Tree) : Joined := ⟨[tree], [], []⟩

/-- The juxtaposition that a chain starts with. -/
def Joined.juxtaposition (joined : Joined) : List Tree :=
  Tree.ofOperands .and joined.conjuncts :: joined.members

/-- The operands of the disjunction that a chain is. -/
def Joined.alternatives (joined : Joined) : List Tree :=
  Tree.ofOperands .implicit joined.juxtaposition :: joined.disjuncts

def Joined.tree (joined : Joined) : Tree := Tree.ofOperands .or joined.alternatives

@[simp] lemma Joined.tree_single (tree : Tree) : (Joined.single tree).tree = tree := rfl

/-- The chain with one more operand in front. -/
def Link.attach (link : Link) (tree : Tree) (joined : Joined) : Joined :=
  match link with
  | .and _ _ _ => ⟨tree :: joined.conjuncts, joined.members, joined.disjuncts⟩
  | .beside _ => ⟨[tree], joined.juxtaposition, joined.disjuncts⟩
  | .or _ _ => ⟨[tree], [], joined.alternatives⟩

/-- The tree with a field around it if there is a head; a parenthesised value is told apart from
other groups. -/
def named (head : Option FieldHead) (span : Span) (plain value : Tree) : Tree :=
  match head with
  | none => plain
  | some head => .field head.name value span

/-- The bytes of a text that is followed by `r` at the end of `total` bytes. -/
def spanBefore (total : Nat) (text r : List Char) : Span :=
  ⟨total - byteLength (text ++ r), total - byteLength r⟩

/-- The operands of a spelling that is followed by `r` at the end of `total` bytes; all but chains
have one. -/
def Spelling.joined (total : Nat) : {k : Rank} → Spelling k → List Char → Joined
  | _, .atom head value, r =>
    .single (named head (spanBefore total (headText head ++ value.text) r) value.tree value.tree)
  | _, .group head before inner after, r =>
    let tree := (inner.joined total (after.chars ++ ')' :: r)).tree
    .single (named head (spanBefore total (Spelling.group head before inner after).text r)
      (.group tree) (.fieldGroup tree))
  | _, .modified operand gap modifier number, r =>
    let tree :=
      (operand.joined total (gap.chars ++ modifier.mark :: (optionalChars number ++ r))).tree
    .single (modifier.apply tree number)
  | _, .bare element, r => element.joined total r
  | _, .prefixed op _ operand, r => .single (.prefixed op (operand.joined total r).tree)
  | _, .single operand, r => operand.joined total r
  | _, .linked first link rest, r =>
    link.attach (first.joined total (link.text ++ (rest.text ++ r))).tree (rest.joined total r)

/-- The tree of a spelling that is followed by `r` at the end of `total` bytes. -/
def Spelling.tree {k : Rank} (spelling : Spelling k) (total : Nat) (r : List Char) : Tree :=
  (spelling.joined total r).tree

/-! ### Validity -/

def Bound.Valid (r : List Char) : Bound → Prop
  | .word text => IsBound text.toList ∧ runsOn true r = false
  | .phrase text => IsPhrase text.toList

/-- A word in front of `r` ends there, and it is no name of a field. -/
def Atom.Valid (colons : Bool) (r : List Char) : Atom → Prop
  | .word text => IsTerm colons text.toList ∧ atWordChar r = false ∧ colonAhead r = false
  | .phrase text => IsPhrase text.toList
  | .range _ includeHigh _ low g₂ g₃ high g₄ =>
    let afterHigh := g₄.chars ++ closingBracket includeHigh :: r
    let afterTo := g₃.chars ++ (high.text ++ afterHigh)
    low.Valid (g₂.chars ++ 'T' :: 'O' :: afterTo) ∧ atWordChar afterTo = false ∧
      high.Valid afterHigh

/-- A keyword in front of `r` ends there; operands side by side have no `AND` between them. -/
def Link.Valid (r : List Char) : Link → Prop
  | .and _ keyword after => keyword = true → atWordChar (after.chars ++ r) = false
  | .beside _ => takesAnd r = false
  | .or _ after => atWordChar (after.chars ++ r) = false

def Spelling.Valid : {k : Rank} → Spelling k → List Char → Prop
  | _, .atom head value, r => (∀ h ∈ head, IsFieldName h.name.toList) ∧ value.Valid head.isSome r
  | _, .group head _ inner after, r =>
    (∀ h ∈ head, IsFieldName h.name.toList) ∧ inner.Valid (after.chars ++ ')' :: r)
  | _, .modified operand gap modifier number, r =>
    operand.Valid (gap.chars ++ modifier.mark :: (optionalChars number ++ r)) ∧
      optionalNumber (optionalChars number ++ r) = (number, r)
  | _, .bare element, r => element.Valid r
  | _, .prefixed op gap operand, r =>
    (op = .not → atWordChar (gap.chars ++ (operand.text ++ r)) = false) ∧ operand.Valid r
  | _, .single operand, r => operand.Valid r
  | _, .linked first link rest, r =>
    first.Valid (link.text ++ (rest.text ++ r)) ∧ link.Valid (rest.text ++ r) ∧ rest.Valid r

/-! ### Deciding validity -/

lemma run_iff {colons : Bool} {w : List Char} : Run colons w ↔ wordRun colons w = (w, []) := by
  refine ⟨fun h => ?_, fun h => ?_⟩
  · have := wordRun_of_run h (s := []) (by simp [runsOn, atWordChar])
    rwa [List.append_nil] at this
  · have := run_wordRun colons w
    rwa [h] at this

lemma isTerm_iff {colons : Bool} {w : List Char} : IsTerm colons w ↔ Run colons w ∧ w ≠ [] ∧
    (∀ c ∈ w.head?, c ≠ '+' ∧ c ≠ '-' ∧ c ≠ ':') ∧ atReserved w = false :=
  ⟨fun h => ⟨h.run, h.ne_nil, h.start, h.free⟩, fun h => ⟨h.1, h.2.1, h.2.2.1, h.2.2.2⟩⟩

lemma isBound_iff {w : List Char} :
    IsBound w ↔ Run true w ∧ w ≠ [] ∧ (keyword? "TO" w).isSome = false :=
  ⟨fun h => ⟨h.run, h.ne_nil, h.free⟩, fun h => ⟨h.1, h.2.1, h.2.2⟩⟩

lemma isPhrase_iff {w : List Char} : IsPhrase w ↔ phrase? w = some (String.ofList w, []) := by
  refine ⟨fun h => ?_, fun h => ?_⟩
  · have := h []
    rwa [List.append_nil] at this
  · simpa using (phrase?_eq_some h).2

lemma isFieldName_iff {w : List Char} :
    IsFieldName w ↔ fieldName? w = some (String.ofList w, []) := by
  refine ⟨fun h => ?_, fun h => ?_⟩
  · have := fieldName?_append h (s := []) (by simp)
    rwa [List.append_nil] at this
  · simpa using (fieldName?_eq_some h).2

instance (colons : Bool) (w : List Char) : Decidable (Run colons w) := decidable_of_iff' _ run_iff

instance (colons : Bool) (w : List Char) : Decidable (IsTerm colons w) :=
  have : Decidable (∀ c ∈ w.head?, c ≠ '+' ∧ c ≠ '-' ∧ c ≠ ':') := Option.decidableForallMem _
  decidable_of_iff' _ isTerm_iff

instance (w : List Char) : Decidable (IsBound w) := decidable_of_iff' _ isBound_iff

instance (w : List Char) : Decidable (IsPhrase w) := decidable_of_iff' _ isPhrase_iff

instance (w : List Char) : Decidable (IsFieldName w) := decidable_of_iff' _ isFieldName_iff

instance (r : List Char) : (bound : Bound) → Decidable (bound.Valid r)
  | .word text => inferInstanceAs (Decidable (IsBound text.toList ∧ runsOn true r = false))
  | .phrase text => inferInstanceAs (Decidable (IsPhrase text.toList))

instance (colons : Bool) (r : List Char) : (atom : Atom) → Decidable (atom.Valid colons r)
  | .word text => inferInstanceAs (Decidable (IsTerm colons text.toList ∧ _ ∧ _))
  | .phrase text => inferInstanceAs (Decidable (IsPhrase text.toList))
  | .range _ _ _ _ _ _ _ _ => inferInstanceAs (Decidable (_ ∧ _ ∧ _))

instance (r : List Char) : (link : Link) → Decidable (link.Valid r)
  | .and _ _ _ => inferInstanceAs (Decidable (_ → _))
  | .beside _ => inferInstanceAs (Decidable (takesAnd r = false))
  | .or _ _ => inferInstanceAs (Decidable (_ = _))

instance Spelling.decidableValid : {k : Rank} → (p : Spelling k) → (r : List Char) →
    Decidable (p.Valid r)
  | _, .atom _ _, _ => inferInstanceAs (Decidable (_ ∧ _))
  | _, .group head _ inner after, r =>
    have := inner.decidableValid (after.chars ++ ')' :: r)
    inferInstanceAs (Decidable ((∀ h ∈ head, IsFieldName h.name.toList) ∧ inner.Valid _))
  | _, .modified operand gap modifier number, r =>
    have := operand.decidableValid (gap.chars ++ modifier.mark :: (optionalChars number ++ r))
    inferInstanceAs (Decidable (operand.Valid _ ∧ _ = _))
  | _, .bare element, r => element.decidableValid r
  | _, .prefixed op _ operand, r =>
    have := operand.decidableValid r
    inferInstanceAs (Decidable ((op = .not → _ = _) ∧ operand.Valid r))
  | _, .single operand, r => operand.decidableValid r
  | _, .linked first link rest, r =>
    have := first.decidableValid (link.text ++ (rest.text ++ r))
    have := rest.decidableValid r
    inferInstanceAs (Decidable (first.Valid _ ∧ link.Valid (rest.text ++ r) ∧ rest.Valid r))

end SkyResolver.Query
