import SkyResolver.Json.Writer
import SkyResolver.Number.Binary

/-! Writing TOML: keys with values, and sections of them. -/
namespace SkyResolver.Toml
open SkyResolver.Number

inductive Value where
  | text (s : String)
  | whole (n : Nat)
  | float (x : Float)
  | bool (b : Bool)
  | texts (items : List String)

structure Document where
  top : List (String × Value)
  sections : List (String × List (String × Value))

def Value.toJson : Value → Json
  | .text s => .string s
  | .whole n => .ofNat n
  | .float x => .number (.float x)
  | .bool b => .bool b
  | .texts items => .ofTexts items

def membersToJson (members : List (String × Value)) : List (String × Json) :=
  members.map fun (key, value) => (key, value.toJson)

/-- A document as JSON; its sections are objects behind the other values. -/
def Document.toJson (document : Document) : Json :=
  .object (membersToJson document.top ++
    document.sections.map fun (name, members) => (name, .object (membersToJson members)))

structure TextStyle where
  /-- True when line ends are written as they are. -/
  multiline : Bool
  /-- True when nothing is escaped. -/
  isLiteral : Bool
  deriving DecidableEq

def plainMark : Char := Char.ofNat 0x27

def longestMarkRun (s : List Char) : Nat :=
  (s.foldl (fun (longest, run) c =>
    let run := if c = plainMark then run + 1 else 0
    (max longest run, run)) (0, 0)).1

/-- True for a control character that has to be escaped everywhere. -/
def isControl (c : Char) : Bool := (c.toNat < 0x20 && c != '\t' && c != '\n') || c == '\x7f'

/-- The style of a text: a backslash is best left alone, where the text allows that. -/
def TextStyle.of (s : List Char) : TextStyle where
  multiline := s.contains '\n'
  isLiteral :=
    s.contains '\\' && !s.any isControl && longestMarkRun s < 3 && s.getLast? != some plainMark

def escapedChar (multiline : Bool) (c : Char) : List Char :=
  if c = '\x08' then ['\\', 'b']
  else if c = '\t' then ['\\', 't']
  else if c = '\n' then if multiline then ['\n'] else ['\\', 'n']
  else if c = '\x0c' then ['\\', 'f']
  else if c = '\r' then ['\\', 'r']
  else if c = '"' then ['\\', '"']
  else if c = '\\' then ['\\', '\\']
  else if c.toNat < 0x20 || c = '\x7f' then
    '\\' :: 'u' :: padZeros 4 ((Nat.toDigits 16 c.toNat).map Char.toUpper)
  else [c]

def textChars (s : List Char) : List Char :=
  let style := TextStyle.of s
  let around (mark : Char) (count : Nat) (body : List Char) : List Char :=
    let marks := List.replicate count mark
    marks ++ (if style.multiline then ['\n'] else []) ++ body ++ marks
  if style.isLiteral then
    around plainMark (if style.multiline || s.contains plainMark then 3 else 1) s
  else around '"' (if style.multiline then 3 else 1) (s.flatMap (escapedChar style.multiline))

/-- A double, which always has a point if it is finite. -/
def floatChars (x : Float) : List Char :=
  if x.isNaN then "nan".toList
  else
    let digits := plain x
    if x.isFinite && !digits.contains '.' then digits ++ ['.', '0'] else digits

/-- A value. Several texts stand on a line each. -/
def Value.chars : Value → List Char
  | .text s => textChars s.toList
  | .whole n => digitChars n
  | .float x => floatChars x
  | .bool b => if b then "true".toList else "false".toList
  | .texts [] => ['[', ']']
  | .texts [s] => '[' :: textChars s.toList ++ [']']
  | .texts items =>
    '[' :: items.flatMap (fun s => "\n    ".toList ++ textChars s.toList ++ [',']) ++ ['\n', ']']

def linesChars (members : List (String × Value)) : List Char :=
  members.flatMap fun (key, value) => key.toList ++ " = ".toList ++ value.chars ++ ['\n']

def Document.write (document : Document) : String :=
  String.ofList (linesChars document.top ++ document.sections.flatMap fun (name, members) =>
    '\n' :: '[' :: name.toList ++ [']', '\n'] ++ linesChars members)

/-- True when a number is not too large for a value. -/
def Value.fits : Value → Bool
  | .whole n => n < twoTo 63
  | _ => true

def Document.fits (document : Document) : Bool :=
  document.top.all (·.2.fits) && document.sections.all fun (_, members) => members.all (·.2.fits)

end SkyResolver.Toml
