import WasmHost.Config.Document
import WasmHost.Json
import WasmHost.Toml.Reader

/-!
# Configuration as text

Configuration is written and read as JSON, and read from files in TOML.
-/

namespace WasmHost

/-- Reads a configuration from JSON. -/
def RuntimeConfig.ofJson? (text : String) : Option RuntimeConfig :=
  (Json.read? text).bind (RuntimeConfig.ofDocument? Json.dialect)

/-- Writes a configuration as JSON. -/
def RuntimeConfig.toJson (c : RuntimeConfig) : String := Json.write c.toDocument

/-- Reads the text of a configuration file. -/
def ConfigFile.ofToml (text : String) : Except ConfigFileError ConfigFile :=
  match (Toml.read? text).bind (ConfigFile.ofDocument? Toml.dialect) with
  | some c => .ok c
  | none => .error (.parse "malformed or unsuitable text")

/-- Reads the bytes of the configuration file at a path. -/
def ConfigFile.ofBytes (path : String) (bytes : ByteArray) : Except ConfigFileError ConfigFile :=
  match String.fromUTF8? bytes with
  | some text => ofToml text
  | none => .error (.io path "stream did not contain valid UTF-8")

end WasmHost
