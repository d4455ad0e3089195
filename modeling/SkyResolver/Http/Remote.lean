import SkyResolver.Http.Addresses
import SkyResolver.Http.Exchange
import SkyResolver.Failure

/-! What the clients of all services share: a network, its clock, and the choice among the addresses
of SIMBAD. -/
namespace SkyResolver.Http

def agentName : String := "ADS Object Service"

structure Remote (ν : Type) where
  network : ν
  simbad : AddressBook

def onNetwork {ν α : Type} (step : StateM ν α) : StateM (Remote ν) α := fun remote =>
  let (result, network) := step.run remote.network
  (result, { remote with network })

def success (timeout : Duration) : Outcome → Except CatalogFault (Option String)
  | .answered status body => if isSuccess status then .ok body else .error (.httpStatus status)
  | .timedOut => .error (.timeout timeout)
  | .failed reason => .error (.transport (.reported reason))

def successJson (timeout : Duration) (outcome : Outcome) : Except CatalogFault Json := do
  match bodyJson? (← success timeout outcome) with
  | some value => .ok value
  | none => .error (.badResponse .notJson)

def successText (timeout : Duration) (outcome : Outcome) : Except CatalogFault String := do
  match ← success timeout outcome with
  | some text => .ok text
  | none => .error (.transport (.reported truncatedReason))

def ofPayload {α : Type} : Except PayloadFault α → Except CatalogFault α
  | .ok a => .ok a
  | .error fault => .error (.badResponse fault)

end SkyResolver.Http
