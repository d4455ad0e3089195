import SkyResolver.Query.Grammar
import SkyResolver.Service.Cone

/-! The errors of the service, their words, and whose fault they are. -/
namespace SkyResolver
open SkyResolver.Query

inductive MissingInput where
  | keys
  | names
  | query
  | namesInQuery (text : String)
  | client (catalog : Catalog)

def MissingInput.message : MissingInput → String
  | .keys => "No identifiers/objects found in POST body"
  | .names => "No object names provided"
  | .query => "No query found in POST body"
  | .namesInQuery text => "No object names found in query: " ++ text
  | .client catalog => "No resolver configured for " ++ catalog.title

inductive ServiceError where
  | query (error : QueryFault)
  | position (error : PositionError)
  | unsupportedSource (source : String)
  | missingInput (what : MissingInput)
  | catalog (catalog : Catalog) (fault : CatalogFault)
  | index (fault : IndexFault)
  | bothCatalogsFailed (faults : List (Catalog × ConeFault))

def unsupportedSourceMessage (source : String) : String :=
  "Do not have method to get object data for this service: " ++ source

def queryFaultMessage : QueryFault → String
  | .unbalanced query => "Unbalanced parentheses in query: " ++ query
  | .malformed => "Unable to parse query"

namespace ServiceError

def message : ServiceError → String
  | .query error => queryFaultMessage error
  | .position error => error.message
  | .unsupportedSource source => unsupportedSourceMessage source
  | .missingInput what => what.message
  | .catalog source fault => fault.message source
  | .index fault => fault.message
  | .bothCatalogsFailed faults =>
    ", ".intercalate (faults.map fun (source, fault) =>
      source.title ++ " failed (" ++ fault.message source ++ ")")

/-- True when the request itself is wrong; else a service that was asked is at fault. -/
def isClientError : ServiceError → Bool
  | .query _ => true
  | .position _ => true
  | .unsupportedSource _ => true
  | .missingInput _ => true
  | .catalog _ _ => false
  | .index _ => false
  | .bothCatalogsFailed _ => false

def status (error : ServiceError) : Nat := if error.isClientError then 400 else 502

/-- What is shown to whoever sent the request. -/
def payload (error : ServiceError) : Json :=
  .object [("Error", .string "Unable to get results!"), ("Error Info", .string error.message)]

end ServiceError
end SkyResolver
