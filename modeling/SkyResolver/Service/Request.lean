/-! Requests to the service. -/
namespace SkyResolver

/-- Asks one catalog about names, identifiers or a position. -/
structure LookupRequest where
  /-- The catalog; SIMBAD if there is none. -/
  source : Option String
  objects : Option (List String)
  identifiers : Option (List String)
  /-- A position, maybe with a radius behind a colon. -/
  position : Option String
  deriving DecidableEq, Repr

/-- Asks for the publications about objects that NED knows. -/
structure PublicationRequest where
  objects : List String
  startYear : Option Int
  /-- The last year; the current one if there is none. -/
  endYear : Option Int
  /-- The bibstems of the journals to which the search is restricted. -/
  journals : Option (List String)
  refereedStatus : Option String
  deriving DecidableEq, Repr

inductive ServiceRequest where
  | expand (query : String)
  | lookUp (request : LookupRequest)
  | position (text : String)
  | publications (request : PublicationRequest)
  deriving DecidableEq, Repr

end SkyResolver
