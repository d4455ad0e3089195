import SkyResolver.Settings.Basic
import SkyResolver.Json.Decode

/-! Reading a configuration. What is missing takes its default. -/
namespace SkyResolver
open SkyResolver.Json

def asNullableText : Decoder (Option String)
  | .null => some none
  | value => (asText value).map some

def SimbadSettings.ofJson? (value : Json) : Option SimbadSettings := do
  let fields ← fields? ["url", "backup_url", "max_radius", "max_number", "timeout_secs"] 0 value
  let base : SimbadSettings := {}
  some {
    url := ← fields.withDefault "url" base.url asText
    backupUrl := ← fields.withDefault "backup_url" base.backupUrl asNullableText
    maxRadius := ← fields.withDefault "max_radius" base.maxRadius asFloat
    maxNumber := ← fields.withDefault "max_number" base.maxNumber asNat
    timeoutSecs := ← fields.withDefault "timeout_secs" base.timeoutSecs asNat }

def NedSettings.ofJson? (value : Json) : Option NedSettings := do
  let fields ← fields? ["url", "objsearch_url", "max_radius", "max_number", "timeout_secs"] 0 value
  let base : NedSettings := {}
  some {
    url := ← fields.withDefault "url" base.url asText
    objsearchUrl := ← fields.withDefault "objsearch_url" base.objsearchUrl asText
    maxRadius := ← fields.withDefault "max_radius" base.maxRadius asFloat
    maxNumber := ← fields.withDefault "max_number" base.maxNumber asNat
    timeoutSecs := ← fields.withDefault "timeout_secs" base.timeoutSecs asNat }

def IndexSettings.ofJson? (value : Json) : Option IndexSettings := do
  let fields ← fields? ["query_url", "token", "verify", "max_hits", "timeout_secs"] 2 value
  let base : IndexSettings := {}
  some {
    queryUrl := ← fields.withDefault "query_url" base.queryUrl asText
    token := ← fields.optional "token" asText
    verify := ← fields.withDefault "verify" base.verify asBool
    maxHits := ← fields.withDefault "max_hits" base.maxHits asNat
    timeoutSecs := ← fields.withDefault "timeout_secs" base.timeoutSecs asNat }

def Settings.ofJson? (value : Json) : Option Settings := do
  let fields ← fields? ["log_file", "default_radius", "cache_ttl_secs",
      "endpoint_ttl_secs", "targets",
    "simbad", "ned", "index"] 1 value
  let base : Settings := {}
  some {
    logFile := ← fields.optional "log_file" asText
    defaultRadius := ← fields.withDefault "default_radius" base.defaultRadius asFloat
    cacheTtlSecs := ← fields.withDefault "cache_ttl_secs" base.cacheTtlSecs asNat
    endpointTtlSecs := ← fields.withDefault "endpoint_ttl_secs" base.endpointTtlSecs asNat
    targets := ← fields.withDefault "targets" base.targets asTexts
    simbad := ← fields.withDefault "simbad" base.simbad SimbadSettings.ofJson?
    ned := ← fields.withDefault "ned" base.ned NedSettings.ofJson?
    index := ← fields.withDefault "index" base.index IndexSettings.ofJson? }

end SkyResolver
