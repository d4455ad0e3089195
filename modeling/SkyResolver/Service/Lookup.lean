import SkyResolver.Service.Names
import SkyResolver.Service.Request

/-! Asking one catalog about names or identifiers, or both catalogs about a position. -/
namespace SkyResolver
open SkyResolver.Text

inductive Subject where
  | names (names : List String)
  | identifiers (identifiers : List String)
  | position (text : String)

/-- The subject of a request: its names if it has any, else its identifiers, else its position. -/
def LookupRequest.subject? (request : LookupRequest) : Option Subject :=
  match request.objects.getD [], request.identifiers.getD [], request.position with
  | name :: names, _, _ => some (.names (name :: names))
  | [], id :: ids, _ => some (.identifiers (id :: ids))
  | [], [], some text => if (trim text.toList).isEmpty then none else some (.position text)
  | [], [], none => none

inductive LookupAnswer where
  /-- Each key asked for, with its record if it is known. -/
  | records (records : List (String × Option SkyObject))
  | around (outcome : ConeOutcome)

/-- The records of keys, each key once. -/
def LookupAnswer.ofKeys (keys : List String) (records : ObjectTable) : LookupAnswer :=
  .records ((distinct keys).map fun key => (key, records.get? key))

def LookupRequest.catalog (request : LookupRequest) : Except ServiceError Catalog :=
  match request.source with
  | none => .ok .simbad
  | some source =>
    match Catalog.ofName? source with
    | some catalog => .ok catalog
    | none => .error (.unsupportedSource source)

namespace Service
variable {σ : Type}

def identifierRecords (service : Service σ) (catalog : Catalog) (ids : List String) :
    Action σ ObjectTable := do
  let client ← ExceptT.mk (pure (service.client catalog))
  let reply ← ExceptT.lift (onWorld (client.identifiers ids))
  match reply.inTime client.timeout with
  | .ok records => pure records
  | .error fault => throw (.catalog catalog fault)

def nameRecords (service : Service σ) (catalog : Catalog) (names : List String) :
    Action σ ObjectTable := do
  match ← ExceptT.lift (service.findNames catalog names) with
  | .ok records => pure records
  | .error fault => throw (.catalog catalog fault)

def lookUp (service : Service σ) (request : LookupRequest) : Action σ LookupAnswer := do
  let catalog ← ExceptT.mk (pure request.catalog)
  match request.subject? with
  | none => throw (.missingInput .keys)
  | some (.names names) => return .ofKeys names (← service.nameRecords catalog names)
  | some (.identifiers ids) => return .ofKeys ids (← service.identifierRecords catalog ids)
  | some (.position text) => return .around (← service.searchAt text)

end Service
end SkyResolver
