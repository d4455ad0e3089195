import SkyResolver.Catalog
import SkyResolver.Query.Clause

/-! Expansion of `object:` clauses. A clause becomes a disjunction: the clause as a full-text
search, and for each target catalog the clause with identifiers in place of names, all of it
restricted to the astronomy collection. Replacement works on the text: each clause is replaced where
its text first occurs in what the earlier replacements left. -/
namespace SkyResolver.Query
open SkyResolver.Text

section Replacement
variable {m : Type → Type} [Monad m] (replacement : Nat → Clause → m String)

/-- Replaces one clause where its text first occurs. A clause that does not occur is left alone, and
no replacement is asked for. -/
def replaceClause (query : String) (indexed : Clause × Nat) : m String :=
  let (clause, index) := indexed
  match cutAt? clause.text.toList query.toList with
  | some (before, after) => do
    let new ← replacement index clause
    pure (String.ofList (before ++ new.toList ++ after))
  | none => pure query

/-- Replaces the clauses one after another; the replacement is asked for by index and clause. -/
def replaceClauses (query : String) (clauses : List Clause) : m String :=
  clauses.zipIdx.foldlM (replaceClause replacement) query

end Replacement

/-- An expression within the astronomy collection. -/
def withinAstronomy (expr : String) : String := "((" ++ expr ++ ") database:astronomy)"

/-- The characters after which an `object:` inside a clause starts a field. -/
def startsField (c : Char) : Bool := isBlank c || c == '(' || c == '+' || c == '-'

/-- The text behind `object`, blanks and a colon, in any case of letters. -/
def afterObjectHead? (s : List Char) : Option (List Char) :=
  if equalIgnoringCase (s.take 6) "object".toList then
    match (s.drop 6).dropWhile isBlank with
    | ':' :: rest => some rest
    | _ => none
  else none

theorem length_lt_of_afterObjectHead? {s r : List Char} (h : afterObjectHead? s = some r) :
    r.length < s.length := by
  unfold afterObjectHead? at h
  split at h
  · split at h
    · rename_i rest hrest
      cases h
      have h₁ := (List.dropWhile_sublist isBlank (l := s.drop 6)).length_le
      rw [hrest] at h₁
      simp only [List.length_cons, List.length_drop] at h₁
      omega
    · cases h
  · cases h

/-- Puts `head` in place of each `object:` that stands behind a character that starts a field. -/
def renameInnerHeads (head : List Char) (s : List Char) : List Char :=
  match s with
  | [] => []
  | c :: s =>
    if startsField c then
      match h : afterObjectHead? s with
      | some rest =>
        have := length_lt_of_afterObjectHead? h
        c :: (head ++ renameInnerHeads head rest)
      | none => c :: renameInnerHeads head s
    else c :: renameInnerHeads head s
termination_by s.length

/-- Puts `head` in place of each `object:` that starts a field of a clause. -/
def renameHead (head clause : List Char) : List Char :=
  match afterObjectHead? clause with
  | some rest => head ++ renameInnerHeads head rest
  | none => renameInnerHeads head clause

/-- The characters after which a name may start. -/
def opensName (c : Char) : Bool :=
  isBlank c || c == '(' || c == ':' || c == '"' || c == '+' || c == '-'

/-- The characters before which a name may end. -/
def closesName (c : Char) : Bool := isBlank c || c == ')' || c == '"' || c == '^' || c == '~'

/-- The rest behind a name that ends here as a whole. -/
def afterName? (name : List Char) (s : List Char) : Option (List Char) :=
  match afterPrefix? name s with
  | some [] => some []
  | some (c :: rest) => if closesName c then some (c :: rest) else none
  | none => none

/-- The first of the names that stands here as a whole, and the rest behind it. -/
def firstName? (names : List (List Char)) (s : List Char) :
    Option (List Char × List Char) :=
  names.findSome? fun name =>
    if name.isEmpty then none else (afterName? name s).map fun rest => (name, rest)

theorem length_lt_of_firstName? {names : List (List Char)} {s name r : List Char}
    (h : firstName? names s = some (name, r)) : r.length < s.length := by
  obtain ⟨candidate, _, h⟩ := List.exists_of_findSome?_eq_some h
  split at h
  · cases h
  · rename_i hne
    simp only [Option.map_eq_some_iff, Prod.mk.injEq] at h
    obtain ⟨rest, hrest, rfl, rfl⟩ := h
    have hpos : candidate.length ≠ 0 := by simpa using hne
    unfold afterName? at hrest
    split at hrest
    · rename_i hafter
      cases hrest
      rw [afterPrefix?_eq_some_iff.1 hafter]
      simp; omega
    · rename_i c rest' hafter
      split at hrest
      · cases hrest
        rw [afterPrefix?_eq_some_iff.1 hafter]
        simp; omega
      · cases hrest
    · cases hrest

/-- Replaces the names that stand in a text as wholes, from left to right; `previous` is the
character before the text. -/
def replaceNamesFrom (names : List (List Char)) (replacement : List Char → List Char)
    (previous : Option Char) (s : List Char) : List Char :=
  match s with
  | [] => []
  | c :: rest =>
    let found :=
      if previous.all opensName then firstName? names (c :: rest) else none
    match h : found with
    | some (name, after) =>
      have : after.length < (c :: rest).length := by
        by_cases hp : previous.all opensName = true
        · simp only [found, hp, if_true] at h
          exact length_lt_of_firstName? h
        · simp [found, hp] at h
      replacement name ++ replaceNamesFrom names replacement name.getLast? after
    | none => c :: replaceNamesFrom names replacement (some c) rest
termination_by s.length
decreasing_by
  · assumption
  · exact Nat.lt_succ_self _

/-- The names with longer ones first, so that no name is found inside a longer one. -/
def longestFirst (names : List String) : List (List Char) :=
  ((names.map String.toList).filter fun name => !name.isEmpty).mergeSort
    fun a b => byteLength b ≤ byteLength a

def replaceNames (names : List String) (replacement : String → String) (text : List Char) :
    List Char :=
  replaceNamesFrom (longestFirst names) (fun name => (replacement (String.ofList name)).toList) none
    text

abbrev Identification := Catalog → String → Option String

def catalogVariant (clause : Clause) (names : List String) (identification : Identification)
    (catalog : Catalog) : List Char :=
  replaceNames names (fun name => (identification catalog name).getD absentId)
    (renameHead catalog.fieldHead.toList clause.text.toList)

/-- What a clause is replaced by: its full-text variant and one variant for each target. -/
def clauseExpansion (clause : Clause) (names : List String) (targets : List Catalog)
    (identification : Identification) : String :=
  let variants := renameHead "=abs:".toList clause.text.toList ::
    targets.map (catalogVariant clause names identification)
  withinAstronomy (String.ofList (join " OR ".toList variants))

/-- The query with each of its clauses replaced by its expression. -/
def expandQuery (query : String) (clauses : List Clause) (names : List String)
    (targets : List Catalog) (identification : Identification) : String :=
  Id.run (replaceClauses (fun _ clause =>
    pure (clauseExpansion clause names targets identification)) query clauses)

end SkyResolver.Query
