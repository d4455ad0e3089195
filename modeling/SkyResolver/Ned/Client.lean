import SkyResolver.Settings.Basic
import SkyResolver.Http.Remote
import SkyResolver.Ned.Listing
import SkyResolver.Ned.Answer
import SkyResolver.Client.Basic

/-! Asking NED over the network: one request for each name, one for each position. -/
namespace SkyResolver.Ned
open SkyResolver.Http SkyResolver.Text

def lookupRequest (url name : String) : Request where
  url
  content := .json (.object [("name", .object [("v", .string name)])])
  agent := some agentName

/-- What every position search carries. -/
def searchFields : Fields := [
  ("of", "ascii_bar"), ("search_type", "Near Position Search"), ("img_stamp", "NO"),
  ("list_limit", "5"), ("zv_breaker", "30000.0"), ("obj_sort", "Distance to search center"),
  ("out_equinox", "J2000.0"), ("out_csys", "Equatorial"), ("nmp_op", "ANY"), ("ot_include", "ANY"),
  ("z_unit", "z"), ("z_value1", ""), ("z_value2", ""), ("z_constraint", "Unconstrained"),
  ("corr_z", "1"), ("omegav", "0.73"), ("omegam", "0.27"), ("hconst", "73"),
  ("in_equinox", "J2000.0"), ("in_csys", "Equatorial")]

/-- A request about a position; the radius is sent in arcminutes. -/
def searchRequest (url : String) (c : Coordinate) (radius : Float) : Request where
  url
  content :=
    let (lon, lat) := c.sexagesimalTexts
    .query (searchFields ++ [("lon", lon), ("lat", lat), ("radius", plainText (radius * 60.0))])
  agent := some agentName
  accept := some "text/plain"

variable {ν : Type}

/-- Looks up one name. Identifiers have underscores in place of spaces, and are names too. -/
def lookupOne (network : Network ν) (settings : NedSettings) (name : String) :
    StateM ν (Except CatalogFault Verdict) := do
  let asked := nameOfId name
  let outcome ← send network (lookupRequest settings.url asked)
  pure ((successJson (.ofSeconds settings.timeoutSecs) outcome).bind fun payload =>
    ofPayload (Verdict.ofJson asked payload))

def addLookup (found : NameAnswers) : String × Verdict → NameAnswers
  | (name, .known record) => { found with records := found.records.insert name record }
  | (name, .ambiguous aliases) => { found with ambiguous := found.ambiguous ++ [(name, aliases)] }
  | (_, .unknown) => found

/-- Looks up names; one failed lookup makes all of it fail. -/
def lookupAll (network : Network ν) (settings : NedSettings) (names : List String) :
    StateM ν (Except CatalogFault NameAnswers) := do
  let results ← names.mapM fun name => do
    pure ((← lookupOne network settings name).map fun found => (name, found))
  pure ((results.mapM id).map fun found => found.foldl addLookup ⟨.empty, []⟩)

def search (network : Network ν) (settings : NedSettings) (c : Coordinate) (radius : Float)
    (limit : Nat) : StateM ν (Except CatalogFault (List String)) := do
  let outcome ← send network (searchRequest settings.objsearchUrl c radius)
  pure ((successText (.ofSeconds settings.timeoutSecs) outcome).map (listingIds limit))

def client (network : Network ν) (settings : NedSettings) : CatalogClient (Remote ν) where
  maxRadius := settings.maxRadius
  maxResults := settings.maxNumber
  timeout := .ofSeconds settings.timeoutSecs
  names asked := do
    return .finished ((← onNetwork (lookupAll network settings asked)).map NameAnswers.records)
  lookup asked := do
    return .finished (← onNetwork (lookupAll network settings asked))
  identifiers asked :=
    pure (.finished (.ok (Table.ofList (asked.map fun id => (id, identifierRecord id)))))
  cone coordinate radius limit := do
    return .finished (← onNetwork (search network settings coordinate radius limit))

end SkyResolver.Ned
