import SkyResolver.Service.Publications
import SkyResolver.Service.Lookup
import SkyResolver.Service.Expand

/-! The answers of the service to all kinds of requests, and their JSON form. -/
namespace SkyResolver

inductive Answer where
  | query (text : String)
  | found (answer : LookupAnswer)
  | publications (answer : Publications)

def Service.answer {σ : Type} (service : Service σ) :
    ServiceRequest → Action σ Answer
  | .expand query => return .query (← service.expand query)
  | .lookUp request => return .found (← service.lookUp request)
  | .position text => return .found (.around (← service.searchAt text))
  | .publications request => return .publications (← service.publications request)

def SkyObject.toJson (record : SkyObject) : Json :=
  .object [("id", .string record.id), ("canonical", .string record.name)]

def ConeOutcome.toJson (outcome : ConeOutcome) : Json :=
  .object [
    ("data", .object (Json.sortMembers (outcome.identifiers.map fun (catalog, ids) =>
      (catalog.name, Json.ofTexts ids)))),
    ("query", .string outcome.query)]

/-- The answer about names, identifiers or a position as JSON; records stand in the order of their
keys. -/
def LookupAnswer.toJson : LookupAnswer → Json
  | .records found =>
    .object (Json.sortMembers (found.map fun (key, record) =>
      (key, (record.map SkyObject.toJson).getD .null)))
  | .around outcome => outcome.toJson

def Publications.toJson (answer : Publications) : Json :=
  .object [
    ("ambiguous", .array (answer.ambiguous.map fun (name, aliases) =>
      .object [(name, Json.ofTexts aliases)])),
    ("data", Json.ofTexts answer.bibcodes)]

def Answer.toJson : Answer → Json
  | .query text => .object [("query", .string text)]
  | .found answer => answer.toJson
  | .publications answer => answer.toJson

end SkyResolver
