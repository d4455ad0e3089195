import SkyResolver.Json.Writer
import SkyResolver.Text.Search
import SkyResolver.Text.Visible

/-! The form in which messages show a JSON value that was not expected: each value behind the name
of its kind. -/
namespace SkyResolver.Json
open SkyResolver.Text

/-- A word with something in round brackets behind it. -/
def tagged (tag : String) (inner : List Char) : List Char := tag.toList ++ '(' :: inner ++ [')']

mutual

def describeChars : Json → List Char
  | .null => "Null".toList
  | .bool b => tagged "Bool" (if b then "true".toList else "false".toList)
  | .number n => tagged "Number" (numberChars n)
  | .string s => tagged "String" (quoted s.toList)
  | .array items => "Array [".toList ++ join ", ".toList (describeItems items) ++ [']']
  | .object members =>
    "Object \x7b".toList ++
      join ", ".toList ((sortMembers (describeMembers members)).map fun (name, text) =>
        quoted name.toList ++ ':' :: ' ' :: text) ++ ['\x7d']

def describeItems : List Json → List (List Char)
  | [] => []
  | item :: items => describeChars item :: describeItems items

def describeMembers : List (String × Json) → List (String × List Char)
  | [] => []
  | (name, value) :: members => (name, describeChars value) :: describeMembers members

end

/-- A value that may be missing, with its kind. -/
def describe : Option Json → String
  | none => "None"
  | some value => String.ofList (tagged "Some" (describeChars value))

end SkyResolver.Json
