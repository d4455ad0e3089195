import SkyResolver.Sky.Position
import SkyResolver.Text.Search

/-! The ADQL queries that SIMBAD is asked. Texts from outside stand in literals, where a quote is
written twice. -/
namespace SkyResolver.Simbad
open SkyResolver.Text

def quoteMark : Char := Char.ofNat 0x27

def literal (s : List Char) : List Char :=
  quoteMark :: replaceChar quoteMark [quoteMark, quoteMark] s ++ [quoteMark]

/-- The condition that a column has one of several values. -/
def anyOf (column : String) (values : List String) : List Char :=
  join " OR ".toList (values.map fun value => column.toList ++ '=' :: literal value.toList)

/-- All names of the objects that have one of the given names. -/
def queryForNames (names : List String) : String :=
  "SELECT ident1.oidref, ident1.id, basic.main_id FROM ident AS ident1 " ++
    "JOIN ident AS ident2 ON ident1.oidref = ident2.oidref " ++
    "JOIN basic ON ident1.oidref = basic.oid WHERE " ++ String.ofList (anyOf "ident2.id" names)

def queryForIds (identifiers : List String) : String :=
  "SELECT oid, main_id, main_id FROM basic WHERE " ++ String.ofList (anyOf "oid" identifiers)

/-- The objects within a radius, nearest first. -/
def coneQuery (c : Coordinate) (radius : Float) (limit : Nat) : String :=
  let place := plainText c.ra ++ ", " ++ plainText c.dec
  s!"SELECT TOP {limit} oid, DISTANCE(POINT('ICRS', ra, dec), POINT('ICRS', " ++ place ++
    ")) AS dist FROM basic WHERE CONTAINS(POINT('ICRS', ra, dec), CIRCLE('ICRS', " ++
    place ++ ", " ++ plainText radius ++
    ")) = 1 AND coo_bibcode IS NOT NULL AND ra IS NOT NULL AND dec IS NOT NULL " ++
    "ORDER BY dist ASC"

/-- A query that any server in working order answers. -/
def trialQuery : String := "SELECT TOP 1 oid FROM basic"

end SkyResolver.Simbad
