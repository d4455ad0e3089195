import SkyResolver.Catalog
import SkyResolver.Duration
import SkyResolver.Json.Describe

/-! Failures of the catalogs and of the search index, and the words for them. -/
namespace SkyResolver

/-- Why the answer of a service is of no use. -/
inductive PayloadFault where
  | notJson
  | noRows
  | unexpectedCell (column : Nat) (found : Option Json)
  | noPreferredName (name : String)
  | noDocuments (query : String)
  /-- A fault in the words of whoever noticed it. -/
  | reported (text : String)

def PayloadFault.message : PayloadFault → String
  | .notJson => "response is not JSON"
  | .noRows => "no \"data\" array in the response"
  | .unexpectedCell column found =>
    s!"unexpected value in column {column}: " ++ Json.describe found
  | .noPreferredName name => "no preferred name for " ++ name
  | .noDocuments query => "No bibcodes returned for query: " ++ query
  | .reported text => text

/-- Why a request to a service was not answered. -/
inductive TransportFault where
  /-- Nothing has been set up to ask. -/
  | notConfigured
  /-- A fault in the words of whoever noticed it. -/
  | reported (text : String)

inductive CatalogFault where
  | timeout (after : Duration)
  | transport (fault : TransportFault)
  | httpStatus (status : Nat)
  | badResponse (fault : PayloadFault)

def CatalogFault.message (catalog : Catalog) : CatalogFault → String
  | .timeout after => catalog.title ++ " request timed out after " ++ after.text
  | .transport .notConfigured => catalog.title ++ " request failed: no resolver configured"
  | .transport (.reported text) => catalog.title ++ " request failed: " ++ text
  | .httpStatus status => catalog.title ++ s!" returned HTTP status {status}"
  | .badResponse fault => catalog.title ++ " returned bad data: " ++ fault.message

inductive IndexFault where
  | transport (fault : TransportFault)
  | httpStatus (status : Nat)
  | badResponse (fault : PayloadFault)

def IndexFault.message : IndexFault → String
  | .transport .notConfigured => "index request failed: no search index configured"
  | .transport (.reported text) => "index request failed: " ++ text
  | .httpStatus status => s!"index returned HTTP status {status}"
  | .badResponse fault => "index returned bad data: " ++ fault.message

end SkyResolver
