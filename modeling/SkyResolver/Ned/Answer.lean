import SkyResolver.Failure
import SkyResolver.Client.Record
import SkyResolver.Text.Blank
import SkyResolver.Text.Search

/-! What NED answers when it is asked about a name. An identifier in NED is the preferred name of
the object with underscores in place of spaces. -/
namespace SkyResolver.Ned
open SkyResolver.Text

inductive Verdict where
  | known (record : SkyObject)
  /-- There are several objects; NED has these aliases for them. -/
  | ambiguous (aliases : List String)
  | unknown

def usableStatus : Int := 100

def ambiguousCode : Int := 1

def knownCode : Int := 3

def nameOfId (id : String) : String := String.ofList (replaceChar '_' [' '] (trim id.toList))

/-- A preferred name, with its margin, as a record. -/
def recordOfName (preferred : String) : SkyObject :=
  let chars := trim preferred.toList
  { id := String.ofList (replaceChar ' ' ['_'] chars), name := String.ofList chars }

def Verdict.ofJson (name : String) (payload : Json) : Except PayloadFault Verdict :=
  if (payload.get? "StatusCode").bind Json.int64? = some usableStatus then
    let result := (payload.get? "ResultCode").bind Json.int64?
    if result = some knownCode then
      match (payload.path? ["Preferred", "Name"]).bind Json.text? with
      | some preferred => .ok (.known (recordOfName preferred))
      | none => .error (.noPreferredName name)
    else if result = some ambiguousCode then
      let aliases := (payload.path? ["Interpreted", "Aliases"]).bind Json.items?
      .ok (.ambiguous ((aliases.getD []).filterMap Json.text?))
    else .ok .unknown
  else .ok .unknown

/-- The record of an identifier, which NED need not be asked for. -/
def identifierRecord (id : String) : SkyObject := { id, name := nameOfId id }

end SkyResolver.Ned
