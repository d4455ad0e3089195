import SkyResolver.Settings.Basic
import SkyResolver.Http.Remote
import SkyResolver.Index.Documents
import SkyResolver.Client.Basic

/-! Asking the search index over the network. -/
namespace SkyResolver.Index
open SkyResolver.Http

def request (settings : IndexSettings) (query field : String) (rows : Nat) : Request where
  url := settings.queryUrl
  content := .query [("q", query), ("fl", field), ("rows", toString rows), ("wt", "json")]
  token := settings.token

def answerJson : Outcome → Except IndexFault Json
  | .answered status body =>
    if isSuccess status then
      match bodyJson? body with
      | some value => .ok value
      | none => .error (.badResponse .notJson)
    else .error (.httpStatus status)
  | .timedOut => .error (.transport (.reported "operation timed out"))
  | .failed reason => .error (.transport (.reported reason))

variable {ν : Type}

def ask (network : Network ν) (settings : IndexSettings) (query field : String) (rows : Nat) :
    StateM ν (Except IndexFault Json) := do
  return answerJson (← send network (request settings query field rows))

/-- True when a document has one of the identifiers; with no identifiers there is nothing to ask. -/
def verify (network : Network ν) (settings : IndexSettings) (field : String) :
    List String → StateM ν (Except IndexFault Bool)
  | [] => pure (.ok false)
  | ids => do return (← ask network settings (fieldQuery field ids) "id" 10).map anyDocument

def search (network : Network ν) (settings : IndexSettings) (query : String) :
    StateM ν (Except IndexFault (List String)) := do
  return (← ask network settings query "bibcode" settings.maxHits).bind fun payload =>
    match bibcodes query payload with
    | .ok found => .ok found
    | .error fault => .error (.badResponse fault)

def client (network : Network ν) (settings : IndexSettings) : IndexClient (Remote ν) where
  verify field ids := onNetwork (verify network settings field ids)
  search query := onNetwork (search network settings query)

end SkyResolver.Index
