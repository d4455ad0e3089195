import SkyResolver.Text.Blank
import SkyResolver.Text.Search

/-! The listing that NED answers a position search with: a line for each object, its columns
separated by bars, the name in the second one. -/
namespace SkyResolver.Ned
open SkyResolver.Text

def heading : List Char := "Object_Name".toList

/-- The identifier in a line; there is none in the heading. -/
def lineId? (line : List Char) : Option (List Char) :=
  match splitAt '|' line with
  | _ :: name :: _ =>
    let id := replaceChar ' ' ['_'] (trim name)
    if id.isEmpty || id == heading then none else some id
  | _ => none

/-- The identifiers in a listing, up to a number of them. -/
def listingIds (limit : Nat) (body : String) : List String :=
  (((splitAt '\n' body.toList).filterMap lineId?).take limit).map String.ofList

example : listingIds 5 "NED\nNo.|Object Name|RA\n1| MESSIER 031 |00h\r\n2||\n" =
    ["MESSIER_031"] := by
  decide +kernel

end SkyResolver.Ned
