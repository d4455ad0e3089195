import SkyResolver.Json.Reader
import SkyResolver.Text.Search

/-! The lexemes of TOML: gaps, comments, bare words and strings. Lines end with a line feed; a
carriage return stands only in front of one. -/
namespace SkyResolver.Toml
open SkyResolver.Text

/-- The text with a line feed for each pair of carriage return and line feed, and without a byte
order mark at its start. -/
def foldLines (s : List Char) : List Char :=
  replacePair '\r' '\n' '\n'
    (match s with
    | '\ufeff' :: r => r
    | r => r)

/-- The blanks within a line. -/
def isGap (c : Char) : Bool := c == ' ' || c == '\t'

def skipGap (s : List Char) : List Char := s.dropWhile isGap

/-- The characters of bare words: keys, numbers, and the names of some values. -/
def isWordChar (c : Char) : Bool := c.isAlphanum || c == '-' || c == '_'

/-- The characters that comments and strings may hold as they are. -/
def isPrintable (c : Char) : Bool := c == '\t' || 0x20 ≤ c.toNat

/-- The text behind the end of a line, which the end of the text is too. -/
def afterLineEnd? : List Char → Option (List Char)
  | [] => some []
  | '\n' :: s => some s
  | _ => none

def afterComment? : List Char → Option (List Char)
  | '#' :: s => afterLineEnd? (s.dropWhile isPrintable)
  | _ => none

/-- The text behind the end of a line, with a gap and a comment in front of it. -/
def afterLine? (s : List Char) : Option (List Char) :=
  match skipGap s with
  | '#' :: r => afterComment? ('#' :: r)
  | r => afterLineEnd? r

/-- The text behind gaps, comments and ends of lines; `fuel` bounds their number. -/
def skipLines? : (fuel : Nat) → List Char → Option (List Char)
  | 0, s => some s
  | fuel + 1, s =>
    match skipGap s with
    | '\n' :: r => skipLines? fuel r
    | '#' :: r => (afterComment? ('#' :: r)).bind (skipLines? fuel)
    | r => some r

def word? (s : List Char) : Option (List Char × List Char) :=
  match s.takeWhile isWordChar with
  | [] => none
  | word => some (word, s.dropWhile isWordChar)

def hexChar? (digits : Nat) (s : List Char) : Option (Char × List Char) := do
  let run := s.take digits
  if run.length != digits then none
  let n ← run.foldlM (fun n c => (Json.hexDigit? c).map (16 * n + ·)) 0
  if h : n.isValidChar then some (Char.ofNatAux n h, s.drop digits) else none

def escaped? : List Char → Option (Char × List Char)
  | '"' :: s => some ('"', s)
  | '\\' :: s => some ('\\', s)
  | 'b' :: s => some ('\x08', s)
  | 'f' :: s => some ('\x0c', s)
  | 'n' :: s => some ('\n', s)
  | 'r' :: s => some ('\r', s)
  | 't' :: s => some ('\t', s)
  | 'u' :: s => hexChar? 4 s
  | 'U' :: s => hexChar? 8 s
  | _ => none

/-- The blanks and line ends that a backslash at the end of a line joins. -/
def afterJoin? (s : List Char) : Option (List Char) :=
  match skipGap s with
  | '\n' :: r => some (r.dropWhile fun c => isGap c || c == '\n')
  | _ => none

structure StringKind where
  /-- The mark around the string. -/
  mark : Char
  /-- True when a backslash starts an escape. -/
  escapes : Bool
  /-- True when the string may have several lines. -/
  multiline : Bool

def literalMark : Char := Char.ofNat 0x27

/-- What follows the mark that ends a string, and the marks in front of it that belong to the
string. A string of several lines ends with three marks, and up to two more may stand before them.
-/
def closing? (kind : StringKind) (s : List Char) : Option (List Char × List Char) :=
  let marks := (s.takeWhile (· == kind.mark)).length
  if kind.multiline then
    if 3 ≤ marks then
      let inside := min (marks - 3) 2
      some (List.replicate inside kind.mark, s.drop (inside + 3))
    else none
  else if 1 ≤ marks then some ([], s.drop 1)
  else none

/-- The characters of a string up to its end; `fuel` bounds their number. -/
def stringBody? (kind : StringKind) : (fuel : Nat) → List Char → Option (List Char × List Char)
  | 0, _ => none
  | fuel + 1, s =>
    match closing? kind s with
    | some r => some r
    | none =>
      match s with
      | [] => none
      | c :: r =>
        if c = '\n' then
          if kind.multiline then (stringBody? kind fuel r).map fun (body, r) => ('\n' :: body, r)
            else none
        else if kind.escapes && c == '\\' then
          match (if kind.multiline then afterJoin? r else none) with
          | some r => stringBody? kind fuel r
          | none => do
            let (c, r) ← escaped? r
            let (body, r) ← stringBody? kind fuel r
            some (c :: body, r)
        else if isPrintable c && c != '\x7f' then
          (stringBody? kind fuel r).map fun (body, r) => (c :: body, r)
        else none

/-- A string behind its first mark, and whether it may have several lines. A line end right behind
three marks does not belong to the string. -/
def stringAfterMark? (mark : Char) (escapes : Bool) (s : List Char) :
    Option ((String × Bool) × List Char) :=
  let multiline := s.take 2 == [mark, mark]
  let body :=
    if multiline then
      match s.drop 2 with
      | '\n' :: r => r
      | r => r
    else s
  (stringBody? ⟨mark, escapes, multiline⟩ (body.length + 1) body).map fun (chars, r) =>
    ((String.ofList chars, multiline), r)

def string? : List Char → Option ((String × Bool) × List Char)
  | '"' :: s => stringAfterMark? '"' true s
  | c :: s => if c = literalMark then stringAfterMark? literalMark false s else none
  | [] => none

/-- A key: a bare word, or a string on one line. -/
def key? (s : List Char) : Option (String × List Char) :=
  match word? s with
  | some (word, r) => some (String.ofList word, r)
  | none =>
    match string? s with
    | some ((text, false), r) => some (text, r)
    | _ => none

/-- Keys with points between them; `fuel` bounds their number. -/
def keys? : (fuel : Nat) → List Char → Option (List String × List Char)
  | 0, _ => none
  | fuel + 1, s => do
    let (key, r) ← key? (skipGap s)
    match skipGap r with
    | '.' :: r => do
      let (keys, r) ← keys? fuel r
      some (key :: keys, r)
    | r => some ([key], r)

end SkyResolver.Toml
