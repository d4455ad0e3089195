import SkyResolver.Settings.Basic
import SkyResolver.Toml.Writer

/-! A configuration as a TOML document. Values that are absent are left out. -/
namespace SkyResolver
open SkyResolver.Toml

/-- A text that may be absent, under a key. -/
def optionalText (key : String) (text : Option String) : List (String × Value) :=
  (text.map fun s => (key, Value.text s)).toList

def SimbadSettings.members (c : SimbadSettings) : List (String × Value) :=
  [("url", .text c.url)] ++ optionalText "backup_url" c.backupUrl ++
    [("max_radius", .float c.maxRadius), ("max_number", .whole c.maxNumber),
      ("timeout_secs", .whole c.timeoutSecs)]

def NedSettings.members (c : NedSettings) : List (String × Value) :=
  [("url", .text c.url), ("objsearch_url", .text c.objsearchUrl),
    ("max_radius", .float c.maxRadius), ("max_number", .whole c.maxNumber),
    ("timeout_secs", .whole c.timeoutSecs)]

def IndexSettings.members (c : IndexSettings) : List (String × Value) :=
  [("query_url", .text c.queryUrl)] ++ optionalText "token" c.token ++
    [("verify", .bool c.verify), ("max_hits", .whole c.maxHits),
      ("timeout_secs", .whole c.timeoutSecs)]

def Settings.document (settings : Settings) : Document where
  top := optionalText "log_file" settings.logFile ++
    [("default_radius", .float settings.defaultRadius),
      ("cache_ttl_secs", .whole settings.cacheTtlSecs),
      ("endpoint_ttl_secs", .whole settings.endpointTtlSecs), ("targets", .texts settings.targets)]
  sections := [("simbad", settings.simbad.members), ("ned", settings.ned.members),
    ("index", settings.index.members)]

/-- The text of a configuration; there is none when a number does not fit into a document. -/
def Settings.text? (settings : Settings) : Option String :=
  if settings.document.fits then some settings.document.write else none

end SkyResolver
