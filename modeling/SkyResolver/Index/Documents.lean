import SkyResolver.Failure
import SkyResolver.Text.Search

/-! Queries to the search index, and the documents in its answers. -/
namespace SkyResolver.Index
open SkyResolver.Text

/-- The query for the documents with one of several identifiers in a field. -/
def fieldQuery (field : String) (identifiers : List String) : String :=
  field ++ ":(" ++ " OR ".intercalate identifiers ++ ")"

def documents? (payload : Json) : Option (List Json) :=
  (payload.path? ["response", "docs"]).bind Json.items?

def anyDocument (payload : Json) : Bool :=
  match documents? payload with
  | some (_ :: _) => true
  | _ => false

/-- The bibcodes of the documents that have one. An answer without a list of documents is bad. -/
def bibcodes (query : String) (payload : Json) : Except PayloadFault (List String) :=
  match documents? payload with
  | some documents => .ok (documents.filterMap fun doc => (doc.get? "bibcode").bind Json.text?)
  | none => .error (.noDocuments query)

end SkyResolver.Index
