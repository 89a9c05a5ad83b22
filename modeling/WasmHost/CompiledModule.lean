import WasmHost.ContentHash
import WasmHost.ModuleText
import WasmHost.Error
import WasmHost.Wasm.Validate

/-!
# Loading modules

A module is loaded from bytes in one of several ways that differ in which bytes they take for text.
Each gives the checked module together with the hash of the bytes it stands for; text is hashed
after its translation, except where the engine itself translates it.
-/

namespace WasmHost

/-- A module that has been checked for an engine's features. -/
structure CompiledModule where
  hash : String
  code : Wasm.Module
  valid : ∃ features, code.isValid features = true

instance : Inhabited CompiledModule := ⟨⟨"", .empty, .standard, Wasm.Module.isValid_empty⟩⟩

/-- What modules are loaded with: the features of an engine, and a translator of text. -/
structure Loader where
  features : Wasm.Features
  translator : Translator

/-- Features alone mean that text is translated as in `ModuleText`. -/
instance : Coe Wasm.Features Loader := ⟨fun features => ⟨features, ModuleText.translator⟩⟩

namespace CompiledModule

/-- The engine takes binary modules, and translates what does not begin like one. -/
def engineLoad? (l : Loader) (bytes : ByteArray) : Option Wasm.Module :=
  (l.translator.binaryOf? bytes).bind (Wasm.load? l.features)

theorem valid_of_engineLoad? {l : Loader} {bytes : ByteArray} {code : Wasm.Module}
    (h : engineLoad? l bytes = some code) : code.isValid l.features = true := by
  obtain ⟨binary, -, h⟩ := Option.bind_eq_some_iff.mp h
  exact Wasm.isValid_of_load? h

/-- Loads through the engine, hashing the bytes as they are. -/
def ofBinary (l : Loader) (bytes : ByteArray) : Except Error CompiledModule :=
  match h : engineLoad? l bytes with
  | some code => .ok ⟨ContentHash.ofBytes bytes, code, l.features, valid_of_engineLoad? h⟩
  | none => .error (.engine .invalidModule)

/-- Loads a text. -/
def ofText (l : Loader) (text : String) : Except Error CompiledModule :=
  match l.translator.translate? text with
  | some bytes => ofBinary l bytes
  | none => .error (.wat ModuleText.failure)

/-- Loads bytes that are either a binary module or text. -/
def ofBytes (l : Loader) (bytes : ByteArray) : Except Error CompiledModule :=
  match l.translator.binaryOf? bytes with
  | some bytes => ofBinary l bytes
  | none => .error (.wat ModuleText.failure)

/-- Loads the content of a file: binary if its first byte is zero, text otherwise. -/
def ofFile (l : Loader) (content : ByteArray) : Except Error CompiledModule :=
  if content[0]? = some 0 then ofBinary l content
  else
    match String.fromUTF8? content with
    | some text => ofText l text
    | none => .error (.wat ModuleText.failure)

/-- Checks bytes without keeping the module. -/
def validate (l : Loader) (bytes : ByteArray) : Except Error Unit :=
  (ofBytes l bytes).map fun _ => ()

/-- Only what an engine has serialised can be loaded without checking; other bytes are refused. -/
def ofArtifact (_bytes : ByteArray) : Except Error CompiledModule :=
  .error (.engine .invalidArtifact)

/-- Where a module comes from. -/
inductive Source where
  /-- Bytes that are either a binary module or text. -/
  | any (bytes : ByteArray)
  | binary (bytes : ByteArray)
  | text (text : String)
  /-- A file with some content. -/
  | file (content : ByteArray)
  /-- A file that is not there. -/
  | missing
  /-- What somebody takes for a serialised module. -/
  | artifact (bytes : ByteArray)

/-- The reason a missing file cannot be read. -/
def missingFile : String := "No such file or directory (os error 2)"

/-- Loads a module from a source. -/
def ofSource (l : Loader) : Source → Except Error CompiledModule
  | .any bytes => ofBytes l bytes
  | .binary bytes => ofBinary l bytes
  | .text text => ofText l text
  | .file content => ofFile l content
  | .missing => .error (.io missingFile)
  | .artifact bytes => ofArtifact bytes

/-- What the module asks for. -/
def imports (m : CompiledModule) : List ImportType := m.code.importTypes

/-- What the module offers. -/
def exports (m : CompiledModule) : List ExportType := m.code.exportTypes

/-- How a module is shown. -/
def debugText (m : CompiledModule) : String :=
  "Module \x7b content_hash: \"" ++ m.hash ++ "\", .. \x7d"

end CompiledModule

end WasmHost
