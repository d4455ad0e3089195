import SkyResolver.Cache
import SkyResolver.Service.Error

/-! The service: what it asks and how it is set up, and the state that it keeps from one request to
the next, a cache of names. -/
namespace SkyResolver

/-- A service on a world of type `σ`. -/
structure Service (σ : Type) where
  /-- The catalogs for which clauses are expanded, in the order of their variants. -/
  targets : List Catalog
  /-- The radius, in degrees, of a position without one. -/
  defaultRadius : Float
  catalogs : Catalog → Option (CatalogClient σ)
  index : Option (IndexClient σ)
  /-- True when identifiers of cone searches are looked for in the index. -/
  verifyCones : Bool
  currentYear : Int
  /-- The time in a state of the world, in nanoseconds. -/
  clock : σ → Nat
  /-- Of lookups that start together, given their number, those that finish only after the last one
  has started, in the order of finishing; the others finish at once. -/
  overtaken : Nat → List Nat

/-- The records of names by catalog and upper-cased name. -/
abbrev NameCache := Cache (Catalog × List Char) SkyObject

structure Session (σ : Type) where
  cache : NameCache
  world : σ

abbrev Step (σ : Type) := StateM (Session σ)

/-- A step that may fail; what it did before it failed stays done. -/
abbrev Action (σ : Type) := ExceptT ServiceError (StateM (Session σ))

def onWorld {σ α : Type} (step : StateM σ α) : Step σ α := fun session =>
  let (result, world) := step.run session.world
  (result, { session with world })

@[simp] theorem cache_onWorld {σ α : Type} (step : StateM σ α) (session : Session σ) :
    (onWorld step session).2.cache = session.cache := rfl

@[simp] theorem world_onWorld {σ α : Type} (step : StateM σ α) (session : Session σ) :
    (onWorld step session).2.world = (step session.world).2 := rfl

@[simp] theorem result_onWorld {σ α : Type} (step : StateM σ α) (session : Session σ) :
    (onWorld step session).1 = (step session.world).1 := rfl

namespace Service
variable {σ : Type}

def coneIndex (service : Service σ) : Option (IndexClient σ) :=
  if service.verifyCones then service.index else none

/-- The client of a catalog that must be there. -/
def client (service : Service σ) (catalog : Catalog) : Except ServiceError (CatalogClient σ) :=
  match service.catalogs catalog with
  | some client => .ok client
  | none => .error (.missingInput (.client catalog))

def searchAround (service : Service σ) (position : Position) : Action σ ConeOutcome :=
  ExceptT.mk do
    match ← onWorld (searchCone service.catalogs service.coneIndex position) with
    | .ok outcome => pure (.ok outcome)
    | .error faults => pure (.error (.bothCatalogsFailed faults))

/-- A cone search around the position that a text stands for. -/
def searchAt (service : Service σ) (text : String) : Action σ ConeOutcome :=
  match Position.parse service.defaultRadius text with
  | .ok position => service.searchAround position
  | .error error => throw (.position error)

end Service
end SkyResolver
