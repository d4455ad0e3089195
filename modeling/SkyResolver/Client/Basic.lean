import SkyResolver.Failure
import SkyResolver.Client.Record
import SkyResolver.Sky.Position

/-! The services that are asked: catalogs and the search index. Both are records of calls on a world
of type `σ`, so that a network, a scripted double or a law about all of them fit the same type. -/
namespace SkyResolver

inductive Reply (α : Type) where
  /-- The call came back in time. -/
  | finished (result : Except CatalogFault α)
  /-- The call had not come back when its time was over. -/
  | late

/-- The result of a call that may take a given time. -/
def Reply.inTime {α : Type} (timeout : Duration) : Reply α → Except CatalogFault α
  | .finished result => result
  | .late => .error (.timeout timeout)

structure CatalogClient (σ : Type) where
  /-- The largest radius, in degrees, that the catalog is asked for. -/
  maxRadius : Float
  /-- The largest number of identifiers that a cone search is asked for. -/
  maxResults : Nat
  /-- The time that one call may take. -/
  timeout : Duration
  /-- Records under the names asked for. -/
  names : List String → StateM σ (Reply ObjectTable)
  /-- Records under the names asked for, and the ambiguous ones among the names. -/
  lookup : List String → StateM σ (Reply NameAnswers)
  /-- Records under the identifiers asked for. -/
  identifiers : List String → StateM σ (Reply ObjectTable)
  /-- Identifiers of the objects within a radius, nearest first. -/
  cone : Coordinate → Float → Nat → StateM σ (Reply (List String))

structure IndexClient (σ : Type) where
  /-- True when a document has one of the identifiers in a field. -/
  verify : String → List String → StateM σ (Except IndexFault Bool)
  /-- The bibcodes of the documents that a query finds. -/
  search : String → StateM σ (Except IndexFault (List String))

/-- The lookup of a catalog that knows no ambiguity. -/
def lookupOfNames {σ : Type} (names : List String → StateM σ (Reply ObjectTable))
    (asked : List String) :
    StateM σ (Reply NameAnswers) := do
  match ← names asked with
  | .finished result => pure (.finished (result.map fun records => ⟨records, []⟩))
  | .late => pure .late

end SkyResolver
