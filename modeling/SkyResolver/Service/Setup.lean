import SkyResolver.Settings.Basic
import SkyResolver.Index.Client
import SkyResolver.Ned.Client
import SkyResolver.Service.Basic
import SkyResolver.Simbad.Client

/-! Setting up a service as a configuration says. -/
namespace SkyResolver
open SkyResolver.Http

/-- A service that asks given catalogs and a given index; the error is a target that is no catalog.
-/
def Service.ofSettings {σ : Type} (settings : Settings)
    (catalogs : Catalog → Option (CatalogClient σ)) (index : Option (IndexClient σ))
    (currentYear : Int) (clock : σ → Nat) (overtaken : Nat → List Nat) :
    Except String (Service σ) := do
  let targets ← settings.targetList
  .ok {
    targets, catalogs, index, currentYear, clock, overtaken
    defaultRadius := settings.defaultRadius
    verifyCones := settings.index.verify }

def Session.start {σ : Type} (settings : Settings) (world : σ) : Session σ :=
  ⟨Cache.empty (.ofSeconds settings.cacheTtlSecs), world⟩

def networkCatalogs {ν : Type} (settings : Settings) (network : Network ν) (clock : ν → Nat) :
    Catalog → Option (CatalogClient (Remote ν))
  | .simbad => some (Simbad.client network clock settings.simbad)
  | .ned => some (Ned.client network settings.ned)

/-- A service over a network. Its lookups are under way together. -/
def Service.overNetwork {ν : Type} (settings : Settings) (network : Network ν) (clock : ν → Nat)
    (currentYear : Int) : Except String (Service (Remote ν)) :=
  Service.ofSettings settings (networkCatalogs settings network clock)
    (some (Index.client network settings.index)) currentYear (fun remote => clock remote.network)
    List.range

def Http.Remote.start {ν : Type} (settings : Settings) (network : ν) : Remote ν where
  network
  simbad := AddressBook.unchecked settings.simbad.url settings.simbad.backupUrl.toList
    (.ofSeconds settings.endpointTtlSecs)

end SkyResolver
