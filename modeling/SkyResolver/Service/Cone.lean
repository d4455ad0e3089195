import SkyResolver.Distinct
import SkyResolver.Index.Documents
import SkyResolver.Client.Basic

/-! Cone searches: the identifiers of the objects around a position. Both catalogs are asked, each
with its own limit on the radius. A catalog contributes when it finds something that, as far as the
index can tell, is in the index; the search succeeds when at least one catalog contributes. -/
namespace SkyResolver

inductive ConeFault where
  | failed (fault : CatalogFault)
  | noObjects
  | notIndexed

def ConeFault.message (catalog : Catalog) : ConeFault → String
  | .failed fault => fault.message catalog
  | .noObjects => "no objects found"
  | .notIndexed => "no indexed objects found"

structure ConeOutcome where
  /-- The position that was asked for, its radius not limited. -/
  position : Position
  /-- The identifiers by catalog, for the catalogs that contributed. -/
  identifiers : List (Catalog × List String)
  /-- The query for documents with any of the identifiers. -/
  query : String

/-- The query for documents with any of the identifiers of a cone search. -/
def documentsQuery (identifiers : List (Catalog × List String)) : String :=
  " OR ".intercalate (identifiers.map fun (catalog, ids) => Index.fieldQuery catalog.field ids)

/-- The query in place of a cone search that failed; it finds nothing. -/
def emptyConeQuery : String :=
  " OR ".intercalate (Catalog.all.map fun catalog => catalog.fieldHead ++ absentId)

def askAround {σ : Type} (position : Position) :
    Option (CatalogClient σ) → StateM σ (Except CatalogFault (List String))
  | some client => do
    let within := position.limited client.maxRadius
    let reply ← client.cone within.coordinate within.radius client.maxResults
    pure (reply.inTime client.timeout)
  | none => pure (.error (.transport .notConfigured))

/-- What a catalog contributes, given its answer. A failure of the index does no harm. -/
def contribution {σ : Type} (index : Option (IndexClient σ)) (catalog : Catalog) :
    Except CatalogFault (List String) → StateM σ (Except ConeFault (List String))
  | .error fault => pure (.error (.failed fault))
  | .ok answer =>
    match distinct answer, index with
    | [], _ => pure (.error .noObjects)
    | ids, none => pure (.ok ids)
    | ids, some index => do
      match ← index.verify catalog.field ids with
      | .ok false => pure (.error .notIndexed)
      | _ => pure (.ok ids)

/-- Searches around a position; the errors are those of all catalogs. -/
def searchCone {σ : Type} (catalogs : Catalog → Option (CatalogClient σ))
    (index : Option (IndexClient σ)) (position : Position) :
    StateM σ (Except (List (Catalog × ConeFault)) ConeOutcome) := do
  let answers ← Catalog.all.mapM fun catalog => do
    pure (catalog, ← askAround position (catalogs catalog))
  let contributions ← answers.mapM fun (catalog, answer) => do
    pure (catalog, ← contribution index catalog answer)
  let identifiers := contributions.filterMap fun (catalog, c) =>
    c.toOption.map fun ids => (catalog, ids)
  let faults := contributions.filterMap fun (catalog, c) =>
    match c with
    | .error fault => some (catalog, fault)
    | .ok _ => none
  if identifiers.isEmpty then pure (.error faults)
  else pure (.ok { position, identifiers, query := documentsQuery identifiers })

end SkyResolver
