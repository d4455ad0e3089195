import SkyResolver.Http.Url
import SkyResolver.Json.Reader

/-! Requests over HTTP and what comes of them. A network is anything that answers requests, with a
state of its own. -/
namespace SkyResolver.Http
open SkyResolver.Text

inductive Content where
  /-- Names with values behind the address. -/
  | query (fields : Fields)
  /-- Names with values in the body. -/
  | form (fields : Fields)
  /-- A JSON value in the body. -/
  | json (value : Json)

structure Request where
  url : String
  content : Content
  /-- The token that the sender identifies itself by. -/
  token : Option String := none
  agent : Option String := none
  accept : Option String := none

def Request.target (request : Request) : Except UrlFault Url := do
  let url ← Url.parse request.url
  let url := match request.content with
    | .query fields => url.addFields fields
    | _ => url
  if url.isHttp then .ok url else .error (.otherScheme url.text)

inductive Outcome where
  /-- An answer; its body is missing when the connection ended too early. -/
  | answered (status : Nat) (body : Option String)
  | timedOut
  /-- No answer, for a reason in the words of the network. -/
  | failed (reason : String)

abbrev Network (ν : Type) := Request → StateM ν Outcome

def isSuccess (status : Nat) : Bool := 200 ≤ status && status < 300

/-- Sends a request, unless its address is of no use. -/
def send {ν : Type} (network : Network ν) (request : Request) : StateM ν Outcome :=
  match request.target with
  | .error fault => pure (.failed fault.message)
  | .ok _ => network request

/-- Why no request comes through to a host without a connection: its name is not found, or it cannot
be reached. -/
def HostName.unreachableReason : HostName → String
  | .domain name =>
    if name == "localhost".toList then noRoute
    else "dns error: failed to lookup address information: Temporary failure in name resolution"
  | _ => noRoute
where
  noRoute := "tcp connect error: Network is unreachable (os error 101)"

/-- The network of a machine without any connection: no request comes through. -/
def unreachable {ν : Type} : Network ν := fun request =>
  pure (.failed (match request.target with
    | .error fault => fault.message
    | .ok url =>
      "error sending request for url (" ++ url.text ++ "): error trying to connect: " ++
        url.host.unreachableReason))

def truncatedReason : String :=
  "request or response body error: error reading a body from connection: " ++
    "end of file before message length reached"

def bodyJson? (body : Option String) : Option Json := body.bind Json.parse?

end SkyResolver.Http
