import SkyResolver.Distinct
import SkyResolver.Json.Basic

/-! From the lines of a TOML text to one value. Keys with points in them stand for members inside
members, and so do headings. What one heading has opened, no other one may open again, unless both
start items of a list. -/
namespace SkyResolver.Toml

/-- What stands under a key: a value, or the members that keys with points have put there. -/
inductive Node where
  | value (value : Json)
  | dotted (members : List (String × Node))

mutual

def Node.toJson : Node → Json
  | .value v => v
  | .dotted inner => .object (Node.membersToJson inner)

def Node.membersToJson : List (String × Node) → List (String × Json)
  | [] => []
  | (key, node) :: members => (key, node.toJson) :: Node.membersToJson members

end

/-- Puts a node in the place of the first one under a key. -/
def replaceFirst (key : String) (node : Node) : List (String × Node) → List (String × Node)
  | [] => []
  | member :: members =>
    if member.1 = key then (key, node) :: members else member :: replaceFirst key node members

/-- Puts a value under a path of keys. A key with a value of its own cannot be on the way. -/
def putUnder (key : String) :
    (keys : List String) → Json → List (String × Node) → Option (List (String × Node))
  | [], value, members => some (members ++ [(key, .value value)])
  | next :: keys, value, members =>
    match members.lookup key with
    | none => do
      let inner ← putUnder next keys value []
      some (members ++ [(key, .dotted inner)])
    | some (.dotted inner) => do
      let inner ← putUnder next keys value inner
      some (replaceFirst key (.dotted inner) members)
    | some (.value _) => none

def putAt (members : List (String × Node)) (keys : List String) (value : Json) :
    Option (List (String × Node)) :=
  match keys with
  | [] => none
  | key :: keys => putUnder key keys value members

/-- A heading and the members under it; the first section of a text has no heading. -/
structure Section where
  /-- The keys of the heading, as far as they have not been used up. -/
  path : List String
  /-- True when the section is an item of a list. -/
  isItem : Bool
  members : List (String × Json)

/-- The section without its first key, if that is the given one. -/
def Section.below? (key : String) (s : Section) : Option Section :=
  match s.path with
  | [] => none
  | head :: path => if head = key then some { s with path } else none

/-- True for a section all of whose keys have been used up. -/
def Section.isHere (s : Section) : Bool := s.path.isEmpty

/-- The runs of sections that start with an item. -/
def itemRuns : List Section → List (Section × List Section)
  | [] => []
  | s :: sections =>
    if s.isHere && s.isItem then
      (s, sections.takeWhile fun t => !(t.isHere && t.isItem)) :: itemRuns sections
    else itemRuns sections

/-- The members that sections stand for; `depth` is larger than the number of keys in any heading.
-/
def assemble : (depth : Nat) → List Section → Option (List (String × Json))
  | 0, _ => none
  | depth + 1, sections => do
    let own ←
      match sections.filter Section.isHere with
      | [] => some []
      | [s] => if s.isItem then none else some s.members
      | _ => none
    let keys := distinct (sections.filterMap fun s => s.path.head?)
    let inner ← keys.mapM fun key => do
      let below := sections.filterMap (Section.below? key)
      let startsWithItem := below.head?.any fun s => s.isHere && s.isItem
      if startsWithItem then
        let items ← (itemRuns below).mapM fun (first, others) =>
          if others.any Section.isHere then none
          else (assemble depth others).map fun members => Json.object (first.members ++ members)
        some (key, Json.array items)
      else
        (assemble depth below).map fun members => (key, Json.object members)
    some (own ++ inner)

def ofSections (sections : List Section) : Option Json :=
  let depth := (sections.map fun s => s.path.length).foldl max 0
  (assemble (depth + 2) sections).map .object

end SkyResolver.Toml
