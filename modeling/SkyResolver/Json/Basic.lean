import SkyResolver.Number.Power

/-! JSON values. Whole numbers within 64 bits are kept exactly, all other numbers are doubles. The
members of an object have distinct names; a later member takes the place of an earlier one of the
same name. -/
namespace SkyResolver
open SkyResolver.Number

inductive JsonNumber where
  | int (n : Int)
  | float (x : Float)

inductive Json where
  | null
  | bool (b : Bool)
  | number (n : JsonNumber)
  | string (s : String)
  | array (items : List Json)
  | object (members : List (String × Json))
  deriving Inhabited

namespace Json

/-- The members of an object with one more; an earlier one of the same name is replaced. -/
def setMember (members : List (String × Json)) (name : String) (value : Json) :
    List (String × Json) :=
  if members.any (·.1 == name) then
    members.map fun member => if member.1 == name then (name, value) else member
  else members ++ [(name, value)]

def sortMembers {α : Type} (members : List (String × α)) : List (String × α) :=
  members.mergeSort fun a b => !decide (b.1 < a.1)

def get? (name : String) : Json → Option Json
  | .object members => members.lookup name
  | _ => none

def item? (index : Nat) : Json → Option Json
  | .array items => items[index]?
  | _ => none

/-- The member of a member, along a path of names. -/
def path? : List String → Json → Option Json
  | [], value => some value
  | name :: names, value => (value.get? name).bind (path? names)

def items? : Json → Option (List Json)
  | .array items => some items
  | _ => none

def text? : Json → Option String
  | .string s => some s
  | _ => none

/-- A whole number that fits in 64 bits with a sign. -/
def int64? : Json → Option Int
  | .number (.int n) => if n ≤ highestInt 64 then some n else none
  | _ => none

def ofNat (n : Nat) : Json := .number (.int n)

mutual

/-- The same value with all members in the order of their names. -/
def sorted : Json → Json
  | .array items => .array (sortedItems items)
  | .object members => .object (sortMembers (sortedMembers members))
  | value => value

def sortedItems : List Json → List Json
  | [] => []
  | item :: items => sorted item :: sortedItems items

def sortedMembers : List (String × Json) → List (String × Json)
  | [] => []
  | (name, value) :: members => (name, sorted value) :: sortedMembers members

end

def ofTexts (texts : List String) : Json := .array (texts.map .string)

end Json
end SkyResolver
