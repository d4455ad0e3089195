import SkyResolver.Text.Blank

/-! The two catalogs of astronomical objects, the names by which requests and configurations call
them, and the index fields that hold their identifiers. -/
namespace SkyResolver
open SkyResolver.Text

/-- A catalog. SIMBAD identifies objects by numbers, NED by their preferred names with underscores
in place of blanks. -/
inductive Catalog where
  | simbad
  | ned
  deriving DecidableEq, Repr

namespace Catalog

/-- Both catalogs, in the order in which answers list them. -/
def all : List Catalog := [.simbad, .ned]

theorem mem_all (catalog : Catalog) : catalog ∈ all := by cases catalog <;> decide

/-- The name of a catalog in requests and configurations. -/
def name : Catalog → String
  | .simbad => "simbad"
  | .ned => "ned"

/-- The name of a catalog in messages. -/
def title : Catalog → String
  | .simbad => "SIMBAD"
  | .ned => "NED"

/-- The field of the index that holds identifiers of a catalog. -/
def field : Catalog → String
  | .simbad => "simbid"
  | .ned => "nedid"

def fieldHead (catalog : Catalog) : String := catalog.field ++ ":"

/-- The catalog that a text names; the margin and the case of ASCII letters do not matter. -/
def ofName? (source : String) : Option Catalog :=
  let key := (trim source.toList).map Char.toLower
  all.find? fun catalog => catalog.name.toList == key

end Catalog

/-- The identifier that stands for an unknown object; it matches nothing in the index. -/
def absentId : String := "0"

end SkyResolver
