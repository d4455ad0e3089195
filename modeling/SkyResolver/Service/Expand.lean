import SkyResolver.Query.Expansion
import SkyResolver.Service.Names

/-! Expanding queries: each `object:` clause becomes a search for the names and for the identifiers
of the objects. A clause that holds one position, and nothing else, becomes a cone search. No
failure of a catalog or of the index makes an expansion fail; a name that cannot be found gets the
identifier of no object. -/
namespace SkyResolver
open SkyResolver.Query SkyResolver.Text

abbrev Identifiers := Table (Catalog × String) String

/-- The identifier of a name in the result of its lookup. -/
def identifierIn (name : String) : Except CatalogFault ObjectTable → String
  | .ok records => ((records.get? name).map SkyObject.id).getD absentId
  | .error _ => absentId

/-- The position that a clause holds in place of names. -/
def clausePosition? (defaultRadius : Float) (clause : Clause) : Option Position :=
  match clause.names with
  | [name] => (Position.parse defaultRadius name).toOption
  | _ => none

/-- The names that are needed by a clause without a position. -/
def neededNames (defaultRadius : Float) (extraction : Extraction) : List String :=
  extraction.names.filter fun name =>
    extraction.clauses.any fun clause =>
      (clausePosition? defaultRadius clause).isNone && clause.names.contains name

namespace Service
variable {σ : Type}

def coneExpression (service : Service σ) (position : Position) : Step σ String := do
  match ← (service.searchAround position).run with
  | .ok outcome => pure (withinAstronomy outcome.query)
  | .error _ => pure (withinAstronomy emptyConeQuery)

def clauseCone (service : Service σ) (clause : Clause) : Step σ (Option String) := do
  match clausePosition? service.defaultRadius clause with
  | some position => return some (← service.coneExpression position)
  | none => pure none

/-- The identifier of every name in every target catalog. -/
def identifiersOf (service : Service σ) (names : List String) : Step σ Identifiers := do
  let lookups := service.targets.flatMap fun catalog => names.map fun name => (catalog, name)
  let results ← service.lookupTogether lookups
  pure (Table.ofList ((lookups.zip results).map fun (lookup, result) =>
    (lookup, identifierIn lookup.2 result)))

def expandClauses (service : Service σ) (query : String) (extraction : Extraction) :
    Step σ String := do
  let cones ← extraction.clauses.mapM service.clauseCone
  let names := neededNames service.defaultRadius extraction
  let identifiers ← service.identifiersOf names
  let expression (i : Nat) (clause : Clause) : String :=
    match cones[i]? with
    | some (some cone) => cone
    | _ =>
      clauseExpansion clause names service.targets fun catalog name => identifiers.get?
        (catalog, name)
  pure (Id.run (replaceClauses (fun i clause => pure (expression i clause)) query
    extraction.clauses))

def expand (service : Service σ) (query : String) : Action σ String := do
  if (trim query.toList).isEmpty then throw (.missingInput .query)
  match Extraction.ofQuery query with
  | .error error => throw (.query error)
  | .ok extraction =>
    if extraction.isEmpty then pure query
    else if extraction.names.isEmpty then throw (.missingInput (.namesInQuery query))
    else ExceptT.lift (service.expandClauses query extraction)

end Service
end SkyResolver
