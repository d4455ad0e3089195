import SkyResolver.Json.Basic
import SkyResolver.Number.Write

/-! Writing JSON, without blanks or on indented lines. The members of objects keep their order. -/
namespace SkyResolver.Json
open SkyResolver.Number

/-- Positional notation from 0.00001 up to sixteen digits, always with a point; exponents have a
sign, and ties go to the even digit. -/
def floatFormat : FloatFormat := ⟨.even, ['.', '0'], ['+'], fun size => -5 < size && size ≤ 16⟩

def numberChars : JsonNumber → List Char
  | .int n => intChars n
  | .float x => if x.isFinite then floatFormat.write x else "null".toList

def hexChars (n : Nat) : List Char := padZeros 4 (Nat.toDigits 16 n)

def escapedChar (c : Char) : List Char :=
  if c = '"' then ['\\', '"']
  else if c = '\\' then ['\\', '\\']
  else if c = '\n' then ['\\', 'n']
  else if c = '\r' then ['\\', 'r']
  else if c = '\t' then ['\\', 't']
  else if c = '\x08' then ['\\', 'b']
  else if c = '\x0c' then ['\\', 'f']
  else if c.toNat < 0x20 then '\\' :: 'u' :: hexChars c.toNat
  else [c]

def stringChars (s : String) : List Char := '"' :: (s.toList.flatMap escapedChar ++ ['"'])

/-- What is written at the places where lines may be broken, for a value at a given depth. -/
structure Layout where
  /-- After an opening bracket, after a comma, and before a closing bracket. -/
  break_ : Nat → List Char
  /-- After a colon. -/
  colon : List Char

def Layout.compact : Layout := ⟨fun _ => [], [':']⟩

/-- Each item and member on a line of its own, two blanks deeper than the value around it. -/
def Layout.indented : Layout :=
  ⟨fun depth => '\n' :: List.replicate (2 * depth) ' ', [':', ' ']⟩

def Layout.enclose (layout : Layout) (depth : Nat) (open_ close : Char)
    (pieces : List (List Char)) : List Char :=
  if pieces.isEmpty then [open_, close]
  else
    open_ :: layout.break_ (depth + 1) ++
      (pieces.intersperse (',' :: layout.break_ (depth + 1))).flatten ++
      layout.break_ depth ++ [close]

mutual

/-- The text of a value at a given depth. -/
def writeAt (layout : Layout) (depth : Nat) : Json → List Char
  | .null => "null".toList
  | .bool b => if b then "true".toList else "false".toList
  | .number n => numberChars n
  | .string s => stringChars s
  | .array items => layout.enclose depth '[' ']' (writeItems layout (depth + 1) items)
  | .object members =>
    layout.enclose depth '\x7b' '\x7d' (writeMembers layout (depth + 1) members)

def writeItems (layout : Layout) (depth : Nat) : List Json → List (List Char)
  | [] => []
  | item :: items => writeAt layout depth item :: writeItems layout depth items

def writeMembers (layout : Layout) (depth : Nat) : List (String × Json) → List (List Char)
  | [] => []
  | (name, value) :: members =>
    (stringChars name ++ layout.colon ++ writeAt layout depth value) ::
      writeMembers layout depth members

end

/-- The text of a value without blanks. -/
def write (value : Json) : String := String.ofList (writeAt .compact 0 value)

def writeIndented (value : Json) : String := String.ofList (writeAt .indented 0 value)

end SkyResolver.Json
