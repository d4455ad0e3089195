import SkyResolver.Json.Basic

/-! Reading values of given shapes out of JSON. A record is an object with named fields, or an array
with the fields in their order. Unknown members of an object are ignored; a known one may stand
there only once. -/
namespace SkyResolver.Json
open SkyResolver.Number

abbrev Decoder (α : Type) := Json → Option α

def asText : Decoder String := text?

/-- A list of values of one shape. -/
def asList {α : Type} (item : Decoder α) : Decoder (List α)
  | .array items => items.mapM item
  | _ => none

def asTexts : Decoder (List String) := asList asText

def asBool : Decoder Bool
  | .bool b => some b
  | _ => none

/-- A whole number between two limits. -/
def asInt (lowest highest : Int) : Decoder Int
  | .number (.int n) => if lowest ≤ n && n ≤ highest then some n else none
  | _ => none

/-- A natural number within 64 bits. -/
def asNat : Decoder Nat := fun value => (asInt 0 (highestNat 64) value).map Int.toNat

/-- A number; a whole number is as good as any. -/
def asFloat : Decoder Float
  | .number (.int n) => some (Float.ofInt n)
  | .number (.float x) => some x
  | _ => none

abbrev Fields := List (String × Json)

/-- The fields of a record. In an array at least `required` of them must be there. -/
def fields? (names : List String) (required : Nat) : Json → Option Fields
  | .object members =>
    let known := members.filter fun member => names.contains member.1
    if (known.map Prod.fst).Nodup then some known else none
  | .array items =>
    if required ≤ items.length && items.length ≤ names.length then some (names.zip items) else none
  | _ => none

def Fields.required {α : Type} (fields : Fields) (name : String) (decoder : Decoder α) : Option α :=
  (fields.lookup name).bind decoder

/-- A field that may be missing or null. -/
def Fields.optional {α : Type} (fields : Fields) (name : String) (decoder : Decoder α) :
    Option (Option α) :=
  match fields.lookup name with
  | none => some none
  | some .null => some none
  | some value => (decoder value).map some

def Fields.withDefault {α : Type} (fields : Fields) (name : String) (default : α)
    (decoder : Decoder α) : Option α :=
  match fields.lookup name with
  | none => some default
  | some value => decoder value

end SkyResolver.Json
