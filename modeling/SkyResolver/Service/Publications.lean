import SkyResolver.Distinct
import SkyResolver.Service.Basic
import SkyResolver.Service.Request

/-! Publications about objects. NED is asked about the names, and the index for documents with the
identifiers of the objects that NED knows. -/
namespace SkyResolver

structure Publications where
  /-- The ambiguous names with the aliases that NED offers. -/
  ambiguous : List (String × List String)
  bibcodes : List String

/-- The year from which publications are searched if a request has none. -/
def earliestYear : Int := 1800

/-- The query for the documents about the objects with the given identifiers. -/
def publicationQuery (currentYear : Int) (ids : List String) (request : PublicationRequest) :
    String :=
  let start := request.startYear.getD earliestYear
  let stop := request.endYear.getD currentYear
  let journals :=
    match request.journals with
    | some (journal :: journals) => " bibstem:(" ++ " OR ".intercalate (journal :: journals) ++ ")"
    | _ => ""
  let status :=
    match request.refereedStatus with
    | some status => " property:" ++ status
    | none => ""
  " OR ".intercalate (ids.map fun id => Catalog.ned.fieldHead ++ id) ++ s!" year:{start}-{stop}" ++
    journals ++ status

/-- The identifiers of the names that have a record, in the order of the names. -/
def knownIds (records : ObjectTable) (names : List String) : List String :=
  distinct (names.filterMap fun name => (records.get? name).map SkyObject.id)

namespace Service
variable {σ : Type}

def publications (service : Service σ) (request : PublicationRequest) : Action σ Publications := do
  if request.objects.isEmpty then throw (.missingInput .names)
  let client ← ExceptT.mk (pure (service.client .ned))
  let reply ← ExceptT.lift (onWorld (client.lookup request.objects))
  match reply.inTime client.timeout with
  | .error fault => throw (.catalog .ned fault)
  | .ok found =>
    match knownIds found.records request.objects with
    | [] => pure { ambiguous := found.ambiguous, bibcodes := [] }
    | ids =>
      match service.index with
      | none => throw (.index (.transport .notConfigured))
      | some index =>
        let query := publicationQuery service.currentYear ids request
        match ← ExceptT.lift (onWorld (index.search query)) with
        | .ok bibcodes => pure { ambiguous := found.ambiguous, bibcodes }
        | .error fault => throw (.index fault)

end Service
end SkyResolver
