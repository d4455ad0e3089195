import SkyResolver.Table

/-! What catalogs answer when they are asked about names and identifiers. -/
namespace SkyResolver

/-- What a catalog knows about one object. -/
structure SkyObject where
  /-- The identifier of the object in the catalog. -/
  id : String
  /-- The name that the catalog prefers. -/
  name : String
  deriving DecidableEq, Repr

/-- Records under the keys that were asked for; unknown keys are absent. -/
abbrev ObjectTable := Table String SkyObject

/-- Records under names, and the names for which the catalog has several objects. -/
structure NameAnswers where
  records : ObjectTable
  /-- Each ambiguous name with the aliases that the catalog offers for it, in the order asked. -/
  ambiguous : List (String × List String)

end SkyResolver
