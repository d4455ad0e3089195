import SkyResolver.Catalog
import SkyResolver.Distinct
import SkyResolver.Duration

/-! The configuration of the service. -/
namespace SkyResolver

structure SimbadSettings where
  url : String := "http://simbad.harvard.edu/simbad/sim-tap/sync"
  /-- Another address, which is asked when the first one fails its check. -/
  backupUrl : Option String := some "http://simbad.u-strasbg.fr/simbad/sim-tap/sync"
  maxRadius : Float := 3.0
  maxNumber : Nat := 50
  timeoutSecs : Nat := 8

structure NedSettings where
  /-- Where names are looked up. -/
  url : String := "https://ned.ipac.caltech.edu/srs/ObjectLookup"
  /-- Where positions are searched. -/
  objsearchUrl : String := "https://ned.ipac.caltech.edu/cgi-bin/objsearch"
  maxRadius : Float := 3.0
  maxNumber : Nat := 50
  timeoutSecs : Nat := 10

structure IndexSettings where
  queryUrl : String := "https://api.adsabs.harvard.edu/v1/search/query"
  token : Option String := none
  /-- True when identifiers of cone searches are looked for in the index before they are used. -/
  verify : Bool := true
  /-- The largest number of bibcodes of a search for publications. -/
  maxHits : Nat := 10000
  timeoutSecs : Nat := 10

structure Settings where
  logFile : Option String := none
  /-- The radius, in degrees, of a position without one: two arcminutes. -/
  defaultRadius : Float := 0.033333333
  /-- How long names are remembered: a week. -/
  cacheTtlSecs : Nat := 604800
  /-- How long an address of SIMBAD that passed a check is trusted. -/
  endpointTtlSecs : Nat := 300
  /-- The names of the catalogs for which clauses are expanded. -/
  targets : List String := Catalog.all.map Catalog.name
  simbad : SimbadSettings := {}
  ned : NedSettings := {}
  index : IndexSettings := {}

def settingsFileName : String := "object-service.toml"

/-- The catalogs that a list of names means, each once; the error is the first name that means none.
-/
def catalogsOfNames (names : List String) : Except String (List Catalog) := do
  let catalogs ← names.mapM fun name =>
    match Catalog.ofName? name with
    | some catalog => .ok catalog
    | none => .error name
  .ok (distinct catalogs)

def Settings.targetList (settings : Settings) : Except String (List Catalog) :=
  catalogsOfNames settings.targets

end SkyResolver
