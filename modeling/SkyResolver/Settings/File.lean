import SkyResolver.Settings.Decode
import SkyResolver.Toml.Reader

/-! Files that hold a configuration. -/
namespace SkyResolver

inductive SettingsFileFault where
  | notOpened
  | notText
  | malformed

def SettingsFileFault.message (path : String) : SettingsFileFault → String
  | .notOpened => "Error opening config file: " ++ path
  | .notText => "Error reading config file: " ++ path
  | .malformed => "Failed parsing config file " ++ path

def Settings.ofToml? (text : String) : Option Settings := (Toml.parse? text).bind Settings.ofJson?

/-- The configuration in the bytes of a file; there are none if it cannot be opened. -/
def Settings.ofFile (bytes : Option ByteArray) : Except SettingsFileFault Settings :=
  match bytes with
  | none => .error .notOpened
  | some bytes =>
    match String.fromUTF8? bytes with
    | none => .error .notText
    | some text =>
      match Settings.ofToml? text with
      | some settings => .ok settings
      | none => .error .malformed

end SkyResolver
