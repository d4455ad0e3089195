import SkyResolver.Distinct
import SkyResolver.Failure
import SkyResolver.Client.Record
import SkyResolver.Simbad.Name

/-! What SIMBAD answers: rows of cells. A row about a name has the identifier of an object, one of
its names and its preferred name. -/
namespace SkyResolver.Simbad
open SkyResolver.Text

def rowsIn (payload : Json) : Except PayloadFault (List Json) :=
  match (payload.get? "data").bind Json.items? with
  | some rows => .ok rows
  | none => .error .noRows

/-- The text of a cell; a number is as good as a text. -/
def cellText (row : Json) (column : Nat) : Except PayloadFault String :=
  match row.item? column with
  | some (.string s) => .ok s
  | some (.number n) => .ok (String.ofList (Json.numberChars n))
  | found => .error (.unexpectedCell column found)

structure NameRow where
  record : SkyObject
  /-- The key of the name. -/
  nameKey : List Char

def nameRow (row : Json) : Except PayloadFault NameRow := do
  let id ← cellText row 0
  let preferred ← cellText row 2
  let name ← cellText row 1
  .ok { record := { id, name := cleanText preferred }, nameKey := key name }

def nameRows (payload : Json) : Except PayloadFault (List NameRow) := do
  (← rowsIn payload).mapM nameRow

/-- The records of objects under their names, with and without the spaces in them. Where two rows
have the same name, the later one counts. -/
abbrev Aliases := Table (List Char) SkyObject

def Aliases.ofRows (rows : List NameRow) : Aliases :=
  Table.ofList (rows.flatMap fun row => [(tight row.nameKey, row.record),
    (row.nameKey, row.record)])

/-- The record of a name: the one with the very name if there is one, else the one with the same
name but for spaces. -/
def Aliases.find? (aliases : Aliases) (name : String) : Option SkyObject :=
  (aliases.get? (key name)).or (aliases.get? (tight (key name)))

/-- The record of the only object among the aliases. -/
def Aliases.only? (aliases : Aliases) : Option SkyObject :=
  match aliases.entries with
  | (_, record) :: rest => if rest.all fun e => e.2.id == record.id then some record else none
  | [] => none

/-- The records of the names asked for. A single name that is not among the aliases still means the
object whose names they are, if they are all of one object. -/
def Aliases.pick (aliases : Aliases) (names : List String) : ObjectTable :=
  let found := names.filterMap fun name => (aliases.find? name).map fun record => (name, record)
  match names, found with
  | [name], [] => Table.ofList ((aliases.only?.map fun record => (name, record)).toList)
  | _, found => Table.ofList found

def identifierRecords (payload : Json) : Except PayloadFault ObjectTable := do
  let found ← (← rowsIn payload).mapM fun row => do
    let id ← cellText row 0
    let name ← cellText row 2
    .ok (id, { id, name := cleanText name : SkyObject })
  .ok (Table.ofList found)

/-- The identifiers in an answer, each at its first place. -/
def positionIds (payload : Json) : Except PayloadFault (List String) := do
  .ok (distinct (← (← rowsIn payload).mapM fun row => cellText row 0))

end SkyResolver.Simbad
