import SkyResolver.Query.Parentheses
import SkyResolver.Query.Lexeme
import SkyResolver.Text.Reading

/-! The grammar of the query language, from the loosest binding to the tightest: `OR`,
juxtaposition, `AND`, prefixes, boosts and approximations, and terms. Choices are ordered: the first
alternative that reads something wins and is never taken back, and repetitions take as much as they
can.

Each reader returns what it read and the rest, with a proof that the rest is shorter, so the grammar
is total without a bound on the depth of queries. `total` is the number of bytes of the whole query;
the span of a field follows from it and from the bytes that are left. -/
namespace SkyResolver.Query
open SkyResolver.Text

/-- A prefix operator; `NOT` only as a whole word. -/
def prefixOp? (s : List Char) : Option (Reading PrefixOp s) :=
  match h : keyword? "NOT" s with
  | some rest => some ⟨(.not, rest), length_lt_of_keyword? (by decide) h⟩
  | none =>
    match s with
    | '+' :: rest => some ⟨(.plus, rest), by simp⟩
    | '-' :: rest => some ⟨(.minus, rest), by simp⟩
    | _ => none

/-- The boosts and approximations after a term, the first one innermost. -/
def modifiers (tree : Tree) (s : List Char) : Tree × List Char :=
  match h : skipGap s with
  | '^' :: rest =>
    let number := optionalNumber rest
    have : number.2.length < s.length := by
      have h₁ := length_optionalNumber_le rest
      have h₂ := length_skipGap_le s
      rw [h, List.length_cons] at h₂
      exact Nat.lt_of_le_of_lt h₁ h₂
    modifiers (.boost tree number.1) number.2
  | '~' :: rest =>
    let number := optionalNumber rest
    have : number.2.length < s.length := by
      have h₁ := length_optionalNumber_le rest
      have h₂ := length_skipGap_le s
      rw [h, List.length_cons] at h₂
      exact Nat.lt_of_le_of_lt h₁ h₂
    modifiers (.approx tree number.1) number.2
  | _ => (tree, s)
termination_by s.length

theorem length_modifiers_le (tree : Tree) (s : List Char) :
    (modifiers tree s).2.length ≤ s.length := by
  fun_induction modifiers tree s with
  | case1 tree s rest h number hlt ih => exact Nat.le_trans ih (Nat.le_of_lt hlt)
  | case2 tree s rest h number hlt ih => exact Nat.le_trans ih (Nat.le_of_lt hlt)
  | case3 => exact Nat.le_refl _

def phraseTree? (s : List Char) : Option (Reading Tree s) :=
  match h : phrase? s with
  | some (text, rest) => some ⟨(.phrase text, rest), length_lt_of_phrase? h⟩
  | none => none

def termTree? (colons : Bool) (s : List Char) : Option (Reading Tree s) :=
  match h : term? colons s with
  | some (text, rest) => some ⟨(.word text, rest), length_lt_of_term? h⟩
  | none => none

def boundTree? (s : List Char) : Option (Reading Tree s) :=
  (phraseTree? s).orElse fun _ =>
    match h : bound? s with
    | some (text, rest) => some ⟨(.word text, rest), length_lt_of_bound? h⟩
    | none => none

def rangeTree? (s : List Char) : Option (Reading Tree s) :=
  let interior (includeLow : Bool) (rest : List Char) : Option (Tree × List Char) := do
    let ⟨(low, r₁), _⟩ ← boundTree? (skipGap rest)
    let r₂ ← keyword? "TO" (skipGap r₁)
    let ⟨(high, r₃), _⟩ ← boundTree? (skipGap r₂)
    match skipGap r₃ with
    | ']' :: r₄ => some (.range low high includeLow true, r₄)
    | '\x7d' :: r₄ => some (.range low high includeLow false, r₄)
    | _ => none
  let found :=
    match s with
    | '[' :: rest => interior true rest
    | '\x7b' :: rest => interior false rest
    | _ => none
  found.bind (Reading.check? s)

/-- A range, a phrase or a term, whichever comes first. -/
def plainTree? (colons : Bool) (s : List Char) : Option (Reading Tree s) :=
  (rangeTree? s).orElse fun _ => (phraseTree? s).orElse fun _ => termTree? colons s

def fieldHead? (s : List Char) : Option (Reading String s) :=
  match h : fieldName? s with
  | some (name, rest) =>
    match h' : skipGap rest with
    | ':' :: rest' =>
      some ⟨(name, rest'), by
        have h₁ := length_lt_of_fieldName? h
        have h₂ := length_skipGap_le rest
        rw [h', List.length_cons] at h₂
        exact Nat.lt_trans h₂ h₁⟩
    | _ => none
  | none => none

/-- The text behind an operator; there may be a gap in front of it. -/
def afterOperator? (op : OperatorMark) (s : List Char) :
    Option { r : List Char // r.length < s.length } :=
  match h : op.read? (skipGap s) with
  | some rest =>
    some ⟨rest, Nat.lt_of_lt_of_le (op.length_lt_of_read? h) (length_skipGap_le s)⟩
  | none => none

theorem lex_of_le {m n a b : Nat} (h : m ≤ n) (h' : a < b) :
    Prod.Lex (· < ·) (· < ·) (m, a) (n, b) := by
  rcases Nat.lt_or_eq_of_le h with h | rfl
  · exact Prod.Lex.left _ _ h
  · exact Prod.Lex.right _ h'

mutual

/-- The disjuncts of an expression: juxtapositions with `OR` between them. -/
def disjuncts? (total : Nat) (s : List Char) : Option (Reading (List Tree) s) :=
  match juxtaposed? total s with
  | none => none
  | some ⟨(trees, r), h⟩ =>
    let first := Tree.ofOperands .implicit trees
    match afterOperator? .or r with
    | none => some ⟨([first], r), h⟩
    | some ⟨r', h'⟩ =>
      have hlt : r'.length < s.length := Nat.lt_trans h' h
      match disjuncts? total r' with
      | none => some ⟨([first], r), h⟩
      | some ⟨(others, r''), h''⟩ =>
        some ⟨(first :: others, r''), Nat.lt_trans h'' hlt⟩
termination_by (s.length, 5)

/-- The members of a juxtaposition: conjunctions one after another. -/
def juxtaposed? (total : Nat) (s : List Char) : Option (Reading (List Tree) s) :=
  match conjuncts? total s with
  | none => none
  | some ⟨(trees, r), h⟩ =>
    let first := Tree.ofOperands .and trees
    have : r.length < s.length := h
    match juxtaposed? total r with
    | none => some ⟨([first], r), h⟩
    | some ⟨(others, r'), h'⟩ => some ⟨(first :: others, r'), Nat.lt_trans h' h⟩
termination_by (s.length, 4)

/-- The conjuncts of a conjunction: operands with `AND` between them. -/
def conjuncts? (total : Nat) (s : List Char) : Option (Reading (List Tree) s) :=
  match operand? total s with
  | none => none
  | some ⟨(first, r), h⟩ =>
    match afterOperator? .and r with
    | none => some ⟨([first], r), h⟩
    | some ⟨r', h'⟩ =>
      have hlt : r'.length < s.length := Nat.lt_trans h' h
      match conjuncts? total r' with
      | none => some ⟨([first], r), h⟩
      | some ⟨(others, r''), h''⟩ =>
        some ⟨(first :: others, r''), Nat.lt_trans h'' hlt⟩
termination_by (s.length, 3)

/-- A prefixed operand, or a term with its modifiers. A prefix that no operand follows is read as a
term. -/
def operand? (total : Nat) (s : List Char) : Option (Reading Tree s) :=
  have hgap := length_skipGap_le s
  let modified : Option (Reading Tree s) :=
    match element? total (skipGap s) with
    | none => none
    | some ⟨(tree, r), h⟩ =>
      some ⟨modifiers tree r, Nat.lt_of_le_of_lt (length_modifiers_le tree r)
        (Nat.lt_of_lt_of_le h hgap)⟩
  match prefixOp? (skipGap s) with
  | none => modified
  | some ⟨(op, r), h⟩ =>
    have hlt : r.length < s.length := Nat.lt_of_lt_of_le h hgap
    match operand? total r with
    | none => modified
    | some ⟨(tree, r'), h'⟩ =>
      some ⟨(.prefixed op tree, r'), Nat.lt_trans h' hlt⟩
termination_by (s.length, 2)
decreasing_by
  · exact lex_of_le hgap (by decide)
  · exact Prod.Lex.left _ _ hlt

def element? (total : Nat) (s : List Char) : Option (Reading Tree s) :=
  let unnamed : Option (Reading Tree s) :=
    match enclosed? total s with
    | some ⟨(tree, r), h⟩ => some ⟨(.group tree, r), h⟩
    | none => plainTree? false s
  match fieldHead? s with
  | none => unnamed
  | some ⟨(name, r), h⟩ =>
    have hgap : (skipGap r).length < s.length := Nat.lt_of_le_of_lt (length_skipGap_le r) h
    let value : Option (Reading Tree (skipGap r)) :=
      match enclosed? total (skipGap r) with
      | some ⟨(tree, r'), h'⟩ => some ⟨(.fieldGroup tree, r'), h'⟩
      | none => plainTree? true (skipGap r)
    match value with
    | none => unnamed
    | some ⟨(tree, r'), h'⟩ =>
      let span : Span := ⟨total - byteLength s, total - byteLength r'⟩
      some ⟨(.field name tree span, r'), Nat.lt_trans h' hgap⟩
termination_by (s.length, 1)

def enclosed? (total : Nat) (s : List Char) : Option (Reading Tree s) :=
  match s with
  | '(' :: r =>
    match disjuncts? total r with
    | none => none
    | some ⟨(trees, r'), h⟩ =>
      match h' : skipGap r' with
      | ')' :: r'' =>
        some ⟨(Tree.ofOperands .or trees, r''), by
          have h₁ := length_skipGap_le r'
          rw [h', List.length_cons] at h₁
          exact Nat.lt_trans (Nat.lt_of_lt_of_le h₁ (Nat.le_of_lt h)) (by simp)⟩
      | _ => none
  | _ => none
termination_by (s.length, 0)

end

inductive QueryFault where
  | unbalanced (query : String)
  | malformed
  deriving DecidableEq, Repr

/-- The tree of a text that the grammar takes as a whole, whatever its parentheses. -/
def Tree.ofChars? (s : List Char) : Option Tree :=
  match disjuncts? (byteLength s) s with
  | some ⟨(trees, r), _⟩ => if skipGap r = [] then some (Tree.ofOperands .or trees) else none
  | none => none

/-- The tree of a query. The balance of its parentheses is checked before all else. -/
def Tree.parse (query : String) : Except QueryFault Tree :=
  if parenthesesMatch query then
    match Tree.ofChars? query.toList with
    | some tree => .ok tree
    | none => .error .malformed
  else .error (.unbalanced query)

end SkyResolver.Query
