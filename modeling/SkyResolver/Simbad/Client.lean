import SkyResolver.Settings.Basic
import SkyResolver.Http.Remote
import SkyResolver.Client.Basic
import SkyResolver.Simbad.Adql
import SkyResolver.Simbad.Rows

/-! Asking SIMBAD over the network. Each call first chooses among the addresses, by sending a probe.
-/
namespace SkyResolver.Simbad
open SkyResolver.Http

/-- A request with a query, and the largest number of rows in its answer if there is one. -/
def request (url adql : String) (limit : Option Nat) : Request where
  url
  content := .form <|
    [("request", "doQuery"), ("lang", "adql"), ("format", "json"), ("query", adql)] ++
      (limit.map fun n => ("maxrec", toString n)).toList
  agent := some agentName

variable {ν : Type}

def ask (network : Network ν) (settings : SimbadSettings) (url adql : String) (limit : Option Nat) :
    StateM ν (Except CatalogFault Json) := do
  pure (successJson (.ofSeconds settings.timeoutSecs) (← send network (request url adql limit)))

def passes (network : Network ν) (settings : SimbadSettings) (url : String) : StateM ν Bool := do
  pure (← ask network settings url trialQuery (some 1)).isOk

def chooseAddress (network : Network ν) (clock : ν → Nat) (settings : SimbadSettings) :
    StateM (Remote ν) String := do
  let (url, simbad) ← onNetwork ((← get).simbad.choose clock (passes network settings))
  modify fun remote => { remote with simbad }
  pure url

def query {α : Type} (network : Network ν) (clock : ν → Nat) (settings : SimbadSettings)
    (adql : String) (limit : Option Nat) (read : Json → Except PayloadFault α) :
    StateM (Remote ν) (Reply α) := do
  let url ← chooseAddress network clock settings
  let answer ← onNetwork (ask network settings url adql limit)
  pure (.finished (answer.bind fun payload => ofPayload (read payload)))

def names (network : Network ν) (clock : ν → Nat) (settings : SimbadSettings) :
    List String → StateM (Remote ν) (Reply ObjectTable)
  | [] => pure (.finished (.ok .empty))
  | asked =>
    query network clock settings (queryForNames asked) none fun payload =>
      (nameRows payload).map fun rows => (Aliases.ofRows rows).pick asked

def identifiers (network : Network ν) (clock : ν → Nat) (settings : SimbadSettings) :
    List String → StateM (Remote ν) (Reply ObjectTable)
  | [] => pure (.finished (.ok .empty))
  | asked => query network clock settings (queryForIds asked) none identifierRecords

def client (network : Network ν) (clock : ν → Nat) (settings : SimbadSettings) :
    CatalogClient (Remote ν) where
  maxRadius := settings.maxRadius
  maxResults := settings.maxNumber
  timeout := .ofSeconds settings.timeoutSecs
  names := names network clock settings
  lookup := lookupOfNames (names network clock settings)
  identifiers := identifiers network clock settings
  cone coordinate radius limit :=
    query network clock settings (coneQuery coordinate radius limit) (some limit) positionIds

end SkyResolver.Simbad
