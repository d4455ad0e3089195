import SkyResolver.Distinct
import SkyResolver.Text.Blank
import SkyResolver.Query.Grammar

/-! The `object:` clauses of a query and the names in them. A clause is a field named `object` that
is not below any other field; what other fields hold is never looked at. The names of a clause are
the words and phrases of its value, wherever they stand in it; a value that is one phrase is cut at
the operators inside the quotes. -/
namespace SkyResolver.Query
open SkyResolver.Text

structure Clause where
  /-- The clause as it stands in the query. -/
  text : String
  span : Span
  /-- The names in the clause, in order and with repetitions. -/
  names : List String
  deriving DecidableEq, Repr

/-- The clauses of a query, and their names without repetitions. -/
structure Extraction where
  names : List String
  clauses : List Clause
  deriving DecidableEq, Repr

def isObjectField (name : String) : Bool := equalIgnoringCase name.toList "object".toList

def withoutQuotes (phrase : List Char) : List Char :=
  match phrase with
  | '"' :: rest => if rest.getLast? = some '"' then rest.dropLast else phrase
  | _ => phrase

/-- The name in a text: what is left without the margin, if anything is. -/
def nameIn (s : List Char) : List String :=
  match trim s with
  | [] => []
  | c :: r => [String.ofList (c :: r)]

/-- The text behind a blank-surrounded `OR` or `AND` that starts here. -/
def afterSeparator? (s : List Char) : Option (List Char) :=
  let word := s.dropWhile isBlank
  if word.length = s.length then none
  else
    match (afterPrefix? ['O', 'R'] word).orElse fun _ => afterPrefix? ['A', 'N', 'D'] word with
    | some rest =>
      let after := rest.dropWhile isBlank
      if after.length = rest.length then none else some after
    | none => none

theorem length_lt_of_afterSeparator? {s r : List Char} (h : afterSeparator? s = some r) :
    r.length < s.length := by
  unfold afterSeparator? at h
  have hword := (List.dropWhile_sublist isBlank (l := s)).length_le
  dsimp only at h
  split at h
  · cases h
  · split at h
    · rename_i rest _
      have hrest := (List.dropWhile_sublist isBlank (l := rest)).length_le
      split at h
      · cases h
      · rename_i hne heq hne'
        cases h
        have : rest.length ≤ (s.dropWhile isBlank).length := by
          cases hor : afterPrefix? ['O', 'R'] (s.dropWhile isBlank) with
          | some r' =>
            rw [hor] at heq
            cases heq
            rw [afterPrefix?_eq_some_iff.1 hor]
            simp only [List.cons_append, List.nil_append, List.length_cons]
            omega
          | none =>
            rw [hor] at heq
            rw [afterPrefix?_eq_some_iff.1 heq]
            simp only [List.cons_append, List.nil_append, List.length_cons]
            omega
        omega
    · cases h

def separated (s : List Char) : List (List Char) :=
  match s with
  | [] => [[]]
  | c :: rest =>
    match h : afterSeparator? (c :: rest) with
    | some after =>
      have := length_lt_of_afterSeparator? h
      [] :: separated after
    | none =>
      match separated rest with
      | piece :: pieces => (c :: piece) :: pieces
      | [] => [[c]]
termination_by s.length
decreasing_by
  · assumption
  · exact Nat.lt_succ_self _

mutual

/-- The names in the value of a clause. -/
def Tree.names : Tree → List String
  | .word text => nameIn text.toList
  | .phrase text => nameIn (withoutQuotes text.toList)
  | .field name value _ => if isObjectField name then value.names else []
  | .group inner => inner.names
  | .fieldGroup inner => inner.names
  | .operation _ operands => Tree.namesOfAll operands
  | .prefixed _ operand => operand.names
  | .boost operand _ => operand.names
  | .approx operand _ => operand.names
  | .range _ _ _ _ => []

def Tree.namesOfAll : List Tree → List String
  | [] => []
  | tree :: trees => tree.names ++ Tree.namesOfAll trees

end

def namesInValue : Tree → List String
  | .phrase text => (separated (withoutQuotes text.toList)).flatMap nameIn
  | value => value.names

mutual

/-- The object fields of a tree that are not below another field, in order of appearance, each with
its value and its span. -/
def Tree.objectFields : Tree → List (Tree × Tree × Span)
  | .word _ => []
  | .phrase _ => []
  | .field name value span =>
    if isObjectField name then [(.field name value span, value, span)] else []
  | .group inner => inner.objectFields
  | .fieldGroup inner => inner.objectFields
  | .operation _ operands => Tree.objectFieldsOfAll operands
  | .prefixed _ operand => operand.objectFields
  | .boost operand _ => operand.objectFields
  | .approx operand _ => operand.objectFields
  | .range _ _ _ _ => []

def Tree.objectFieldsOfAll : List Tree → List (Tree × Tree × Span)
  | [] => []
  | tree :: trees => tree.objectFields ++ Tree.objectFieldsOfAll trees

end

/-- The clause of an object field. Its text is what the source has at the span; where the span is
not a range of the source, it is the written form of the field. -/
def Clause.ofField (source : String) (field value : Tree) (span : Span) : Clause :=
  { text := String.ofList ((span.slice? source.toList).getD field.write)
    span
    names := namesInValue value }

/-- The clauses and names of a tree that was read from `source`. -/
def Extraction.ofTree (source : String) (tree : Tree) : Extraction :=
  let clauses := tree.objectFields.map fun (field, value, span) =>
    Clause.ofField source field value span
  { names := distinct (clauses.flatMap Clause.names), clauses }

def Extraction.ofQuery (query : String) : Except QueryFault Extraction :=
  (Tree.parse query).map (Extraction.ofTree query)

def Extraction.isEmpty (extraction : Extraction) : Bool := extraction.clauses.isEmpty

end SkyResolver.Query
