import SkyResolver.Json.Decode
import SkyResolver.Service.Request

/-! Requests as JSON. -/
namespace SkyResolver
open SkyResolver.Json SkyResolver.Number

/-- A query as a request writes it: a text, or the first of a list of texts. -/
def queryOfJson? : Decoder String
  | .string query => some query
  | .array items => (items.mapM asText).map fun queries => queries.head?.getD ""
  | _ => none

def expansionOfJson? (value : Json) : Option String := do
  let fields ← fields? ["query"] 1 value
  fields.required "query" queryOfJson?

def LookupRequest.ofJson? (value : Json) : Option LookupRequest := do
  let fields ← fields? ["source", "objects", "identifiers", "position"] 4 value
  some {
    source := ← fields.optional "source" asText
    objects := ← fields.optional "objects" asTexts
    identifiers := ← fields.optional "identifiers" asTexts
    position := ← fields.optional "position" asText }

def asYear : Decoder Int := asInt (lowestInt 32) (highestInt 32)

def PublicationRequest.ofJson? (value : Json) : Option PublicationRequest := do
  let fields ←
    fields? ["objects", "start_year", "end_year", "journals", "refereed_status"] 5 value
  some {
    objects := ← fields.required "objects" asTexts
    startYear := ← fields.optional "start_year" asYear
    endYear := ← fields.optional "end_year" asYear
    journals := ← fields.optional "journals" asTexts
    refereedStatus := ← fields.optional "refereed_status" asText }

end SkyResolver
