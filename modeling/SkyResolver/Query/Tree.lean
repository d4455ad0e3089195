import SkyResolver.Text.Bytes
import SkyResolver.Text.Search

/-! Syntax trees of boolean search queries, and their written form. A tree keeps the words, phrases
and numbers of the query as they stand there; a field also keeps the range of bytes it was read
from. `Tree.write` puts one blank where the query had any number of them. -/
namespace SkyResolver.Query
open SkyResolver.Text

/-- What joins the operands of an operation; `implicit` is plain juxtaposition. -/
inductive Connective where
  | and
  | or
  | implicit
  deriving DecidableEq, Repr

inductive PrefixOp where
  | not
  | plus
  | minus
  deriving DecidableEq, Repr

/-- The tree of a query. Phrases keep their quotes. -/
inductive Tree where
  | word (text : String)
  | phrase (text : String)
  | field (name : String) (value : Tree) (span : Span)
  | group (inner : Tree)
  /-- The parenthesised value of a field. -/
  | fieldGroup (inner : Tree)
  | operation (op : Connective) (operands : List Tree)
  | prefixed (op : PrefixOp) (operand : Tree)
  | boost (operand : Tree) (factor : Option String)
  /-- A fuzzy term or a proximity phrase. -/
  | approx (operand : Tree) (degree : Option String)
  | range (low high : Tree) (includeLow includeHigh : Bool)
  deriving Repr

def Connective.separator : Connective → List Char
  | .and => [' ', 'A', 'N', 'D', ' ']
  | .or => [' ', 'O', 'R', ' ']
  | .implicit => [' ']

def PrefixOp.mark : PrefixOp → List Char
  | .not => ['N', 'O', 'T', ' ']
  | .plus => ['+']
  | .minus => ['-']

/-- The bracket that opens a range; an excluded bound has a brace. -/
def openingBracket (included : Bool) : Char := if included then '[' else '\x7b'

def closingBracket (included : Bool) : Char := if included then ']' else '\x7d'

def optionalChars (s : Option String) : List Char := (s.getD "").toList

mutual

def Tree.write : Tree → List Char
  | .word text => text.toList
  | .phrase text => text.toList
  | .field name value _ => name.toList ++ ':' :: value.write
  | .group inner => '(' :: (inner.write ++ [')'])
  | .fieldGroup inner => '(' :: (inner.write ++ [')'])
  | .operation op operands => Tree.writeJoined op.separator operands
  | .prefixed op operand => op.mark ++ operand.write
  | .boost operand factor => operand.write ++ '^' :: optionalChars factor
  | .approx operand degree => operand.write ++ '~' :: optionalChars degree
  | .range low high includeLow includeHigh =>
    openingBracket includeLow :: (low.write ++ [' ', 'T', 'O', ' '] ++ high.write ++
      [closingBracket includeHigh])

def Tree.writeJoined (separator : List Char) : List Tree → List Char
  | [] => []
  | tree :: trees =>
    tree.write ++
      match trees with
      | [] => []
      | _ :: _ => separator ++ Tree.writeJoined separator trees

end

def Tree.toText (tree : Tree) : String := String.ofList tree.write

/-- One operand stands for itself; several make an operation. -/
def Tree.ofOperands (op : Connective) : List Tree → Tree
  | [tree] => tree
  | trees => .operation op trees

example : (Tree.field "title" (.boost (.word "sky") (some "2")) ⟨0, 11⟩).write =
    "title:sky^2".toList := by decide

end SkyResolver.Query
