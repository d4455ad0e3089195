import SkyResolver.Json.Basic
import SkyResolver.Json.Reader
import SkyResolver.Number.Read
import SkyResolver.Toml.Lexeme

/-! Numbers and dates in TOML. Both start with a bare word, and a point, a sign or a colon behind
the word may make it longer. A date is kept as it stands, and is not looked into. -/
namespace SkyResolver.Toml
open SkyResolver.Text SkyResolver.Number

/-- The name of the only member of a value that is a date. -/
def dateMember : String := "$__toml_private_datetime"

def digit? (base : Nat) (c : Char) : Option Nat := (Json.hexDigit? c).filter (· < base)

/-- The digits at the start of a text, single underscores between them dropped, and the rest. -/
def digits? (base : Nat) (leadingZeros : Bool) (s : List Char) : Option (List Char × List Char) :=
  let isPart (c : Char) := (digit? base c).isSome || c == '_'
  let run := s.takeWhile isPart
  let digits := run.filter (· != '_')
  let underscores := (splitAt '_' run).all fun piece => !piece.isEmpty
  if run.isEmpty || !underscores then none
  else if !leadingZeros && digits.head? == some '0' && digits.length != 1 then none
  else some (digits, s.dropWhile isPart)

def splitMinus : List Char → Bool × List Char
  | '-' :: s => (true, s)
  | s => (false, s)

def whole? (base : Nat) (s : List Char) : Option Int := do
  let (negative, unsigned) := if base = 10 then splitMinus s else (false, s)
  let (digits, r) ← digits? base (base != 10) unsigned
  if !r.isEmpty then none
  let n := digits.foldl (fun n c => base * n + (digit? base c).getD 0) 0
  let value := if negative then -(n : Int) else (n : Int)
  if lowestInt 64 ≤ value && value ≤ highestInt 64 then some value else none

/-- The exponent of a number: a sign that is part of the word, or a plus behind it. The result is
the text of the exponent and the rest. -/
def exponentText? (suffix rest : List Char) : Option (List Char × List Char) :=
  match suffix with
  | [] => some ([], rest)
  | c :: after =>
    if c != 'e' && c != 'E' then none
    else if after.isEmpty then do
      let rest := match rest with
        | '+' :: r => r
        | r => r
      let (word, rest) ← word? rest
      let (digits, r) ← digits? 10 true word
      if r.isEmpty then some ('e' :: digits, rest) else none
    else do
      let (negative, unsigned) := splitMinus after
      let (digits, r) ← digits? 10 true unsigned
      if r.isEmpty then some ('e' :: (if negative then ['-'] else []) ++ digits, rest) else none

/-- A number with a point or an exponent; `fraction` is the word behind the point. -/
def float? (word : List Char) (fraction : Option (List Char)) (rest : List Char) :
    Option (Float × List Char) := do
  let (negative, unsigned) := splitMinus word
  let (whole, suffix) ← digits? 10 false unsigned
  let (places, suffix) ←
    match fraction with
    | none => some ([], suffix)
    | some after => if suffix.isEmpty then digits? 10 true after else none
  let (exponent, rest) ← exponentText? suffix rest
  let x ← readFinite? ((if negative then ['-'] else []) ++ whole ++ '.' :: places ++ exponent)
  some (x, rest)

def number? (word rest : List Char) : Option (Json × List Char) :=
  let whole (n : Int) : Json × List Char := (.number (.int n), rest)
  let float (x : Float) : Json := .number (.float x)
  match word with
  | '0' :: 'x' :: digits => (whole? 16 digits).map whole
  | '0' :: 'o' :: digits => (whole? 8 digits).map whole
  | '0' :: 'b' :: digits => (whole? 2 digits).map whole
  | _ =>
    if word.contains 'e' || word.contains 'E' then
      (float? word none rest).map fun (x, r) => (float x, r)
    else
      match rest with
      | '.' :: r => do
        let (fraction, r) ← word? r
        let (x, r) ← float? word (some fraction) r
        some (float x, r)
      | _ =>
        let (negative, name) := splitMinus word
        if name == "inf".toList then
          some (float (if negative then -(1.0 / 0.0) else 1.0 / 0.0), rest)
        else if name == "nan".toList then some (float (0.0 / 0.0), rest)
        else (whole? 10 word).map whole

def isDateWord (word : List Char) : Bool :=
  let has (p : String) := (cutAt? p.toList word).isSome
  has "T" || has "t" || (word.tail.contains '-' && !has "e-" && !has "E-")

/-- The text behind a mark and a word, where the mark stands; else the same text. -/
def afterPart? (mark : Char) (s : List Char) : Option (List Char) :=
  match s with
  | c :: r => if c = mark then (word? r).map Prod.snd else some s
  | [] => some s

/-- The text behind the hour of a date, one space after the day. -/
def afterHour (s : List Char) : List Char :=
  match s with
  | ' ' :: r => ((word? r).map Prod.snd).getD s
  | _ => s

def afterDate? (rest : List Char) : Option (List Char) := do
  match afterHour rest with
  | ':' :: r => do
    let (_, r) ← word? r
    match r with
    | ':' :: r => do
      let (_, r) ← word? r
      let r ← afterPart? '.' r
      let r ← afterPart? '+' r
      afterPart? ':' r
    | _ => none
  | r => some r

def numberOrDate? (word rest : List Char) : Option (Json × List Char) :=
  let date (r : List Char) : Json × List Char :=
    (.object [(dateMember, .string (String.ofList (word ++ rest.take (rest.length - r.length))))],
      r)
  if isDateWord word then (afterDate? rest).map date
  else
    match rest with
    | ':' :: _ => (afterDate? rest).map date
    | _ => number? word rest

end SkyResolver.Toml
