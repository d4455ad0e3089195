import SkyResolver.Settings.Basic
import SkyResolver.Service.Error

/-! What makes a configuration unusable. -/
namespace SkyResolver

inductive SettingsFlaw where
  | defaultRadius (found : Float)
  | cacheTtl
  | unknownTarget (name : String)
  | noTargets
  | maxRadius (catalog : Catalog)
  | maxNumber (catalog : Catalog)
  | timeout (catalog : Catalog)
  | noQueryUrl
  | maxHits

def SettingsFlaw.message : SettingsFlaw → String
  | .defaultRadius found =>
    "The default_radius must be greater than zero, found " ++ plainText found
  | .cacheTtl => "Cannot set cache_ttl_secs to zero"
  | .unknownTarget name => unsupportedSourceMessage name
  | .noTargets => "At least one of \"simbad\" or \"ned\" must be listed in targets"
  | .maxRadius catalog => "The " ++ catalog.name ++ " max_radius must be greater than zero"
  | .maxNumber catalog => "Cannot set the " ++ catalog.name ++ " max_number to zero"
  | .timeout catalog => "Cannot set the " ++ catalog.name ++ " timeout_secs to zero"
  | .noQueryUrl => "Index verification is on, but no index query_url is set"
  | .maxHits => "Cannot set the index max_hits to zero"

def demand (condition : Bool) (flaw : SettingsFlaw) : Except SettingsFlaw Unit :=
  if condition then .ok () else .error flaw

def checkLimits (catalog : Catalog) (maxRadius : Float) (maxNumber timeoutSecs : Nat) :
    Except SettingsFlaw Unit := do
  demand (0.0 < maxRadius) (.maxRadius catalog)
  demand (maxNumber != 0) (.maxNumber catalog)
  demand (timeoutSecs != 0) (.timeout catalog)

/-- Checks a configuration; the error is the first flaw. -/
def Settings.check (settings : Settings) : Except SettingsFlaw Unit := do
  demand (0.0 < settings.defaultRadius) (.defaultRadius settings.defaultRadius)
  demand (settings.cacheTtlSecs != 0) .cacheTtl
  match settings.targetList with
  | .error name => .error (.unknownTarget name)
  | .ok catalogs => demand (!catalogs.isEmpty) .noTargets
  checkLimits .simbad settings.simbad.maxRadius settings.simbad.maxNumber
    settings.simbad.timeoutSecs
  checkLimits .ned settings.ned.maxRadius settings.ned.maxNumber settings.ned.timeoutSecs
  demand (!(settings.index.verify && settings.index.queryUrl.isEmpty)) .noQueryUrl
  demand (settings.index.maxHits != 0) .maxHits

end SkyResolver
