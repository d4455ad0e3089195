import SkyResolver.Toml.Number
import SkyResolver.Toml.Section

/-! Reading TOML. A text is a sequence of lines: keys with values, and headings that say where the
keys below them belong. The result is an object; where a key stands twice, it has two members of one
name. -/
namespace SkyResolver.Toml
open SkyResolver.Text

/-- A value that holds no other values and does not start with a bracket. -/
def scalar? (s : List Char) : Option (Json × List Char) :=
  match s with
  | '+' :: r => (word? r).bind fun (word, r) => number? word r
  | c :: _ =>
    if c = '"' || c = literalMark then (string? s).map fun ((text, _), r) => (.string text, r)
    else do
      let (word, r) ← word? s
      if word == "true".toList then some (.bool true, r)
      else if word == "false".toList then some (.bool false, r)
      else if word == "inf".toList || word == "nan".toList || c == '-' || c.isDigit then
        numberOrDate? word r
      else none
  | [] => none

def afterEquals? (s : List Char) : Option (List Char) :=
  match skipGap s with
  | '=' :: r => some (skipGap r)
  | _ => none

mutual

/-- A value; `fuel` bounds the number of values, items and members in it. -/
def value? : (fuel : Nat) → List Char → Option (Json × List Char)
  | 0, _ => none
  | fuel + 1, '[' :: s => (items? fuel s).map fun (items, r) => (.array items, r)
  | fuel + 1, '\x7b' :: s =>
    match skipGap s with
    | '\x7d' :: r => some (.object [], r)
    | r => (members? fuel [] r).map fun (members, r) => (.object (Node.membersToJson members), r)
  | _ + 1, s => scalar? s

def items? : (fuel : Nat) → List Char → Option (List Json × List Char)
  | 0, _ => none
  | fuel + 1, s => do
    match ← skipLines? (s.length + 1) s with
    | ']' :: r => some ([], r)
    | r => do
      let (item, r) ← value? fuel r
      match ← skipLines? (r.length + 1) r with
      | ',' :: r => do
        let (items, r) ← items? fuel r
        some (item :: items, r)
      | ']' :: r => some ([item], r)
      | _ => none

def members? : (fuel : Nat) → List (String × Node) → List Char →
    Option (List (String × Node) × List Char)
  | 0, _, _ => none
  | fuel + 1, done, s => do
    let (keys, r) ← keys? (s.length + 1) s
    let r ← afterEquals? r
    let (value, r) ← value? fuel r
    let done ← putAt done keys value
    match skipGap r with
    | '\x7d' :: r => some (done, r)
    | ',' :: r => members? fuel done (skipGap r)
    | _ => none

end

def heading? (s : List Char) : Option (Section × List Char) := do
  let (isItem, s) :=
    match s with
    | '[' :: r => (true, r)
    | r => (false, r)
  let (path, r) ← keys? (s.length + 1) s
  let r ←
    match isItem, r with
    | true, ']' :: ']' :: r => some r
    | false, ']' :: r => some r
    | _, _ => none
  let r ← afterLine? r
  some ({ path, isItem, members := [] }, r)

/-- A section that is being read: its heading and its members so far. -/
structure Draft where
  heading : Section
  nodes : List (String × Node)

def Draft.finish (draft : Draft) : Section :=
  { draft.heading with members := Node.membersToJson draft.nodes }

/-- The sections of a text; `fuel` bounds the number of its lines. -/
def sections? : (fuel : Nat) → Draft → List Char → Option (List Section)
  | 0, _, _ => none
  | fuel + 1, draft, s => do
    match ← skipLines? (s.length + 1) s with
    | [] => some [draft.finish]
    | '[' :: r => do
      let (heading, r) ← heading? r
      let sections ← sections? fuel ⟨heading, []⟩ r
      some (draft.finish :: sections)
    | r => do
      let (keys, r) ← keys? (r.length + 1) r
      let r ← afterEquals? r
      let (value, r) ← value? (r.length + 1) r
      let nodes ← putAt draft.nodes keys value
      let r ← afterLine? r
      sections? fuel { draft with nodes } r

/-- The section of a text in front of its first heading. -/
def Draft.start : Draft := ⟨⟨[], false, []⟩, []⟩

def parse? (text : String) : Option Json := do
  let s := foldLines text.toList
  let sections ← sections? (s.length + 1) .start s
  ofSections sections

end SkyResolver.Toml
