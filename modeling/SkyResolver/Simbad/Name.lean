import SkyResolver.Text.Blank
import SkyResolver.Text.Search
import SkyResolver.Text.Upper

/-! Names of objects as SIMBAD writes them. A name may stand behind a marker for its kind, such as
`NAME` or `*`; names are compared without it and in upper case. -/
namespace SkyResolver.Simbad
open SkyResolver.Text

def markers : List (List Char) := ["NAME".toList, "*".toList, "V*".toList, "SV*".toList]

/-- The text behind a marker and the blanks after it; without blanks it is no marker. -/
def afterMarker? (name : List Char) : Option (List Char) :=
  markers.findSome? fun marker =>
    match afterPrefix? marker name with
    | some (c :: rest) => if isBlank c then some (rest.dropWhile isBlank) else none
    | _ => none

/-- A name without its marker and its margin. -/
def cleanName (name : List Char) : List Char := trim ((afterMarker? name).getD name)

def cleanText (name : String) : String := String.ofList (cleanName name.toList)

def key (name : String) : List Char := upper (cleanName name.toList)

def tight (key : List Char) : List Char := key.filter (· != ' ')

example : cleanText "NAME  LMC " = "LMC" ∧ cleanText "V* AO Cas" = "AO Cas" ∧
    cleanText "*x" = "*x" ∧
    key "* bet Ori" = "BET ORI".toList ∧ tight "M  31".toList = "M31".toList := by decide +kernel

end SkyResolver.Simbad
