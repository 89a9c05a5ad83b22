import WasmHost.Host.Wire
import WasmHost.CompiledModule

/-!
# Lists of imports and exports on the wire

A module that the engine has compiled is loaded with a list of its imports and one of its exports, whose
types are written for the wire. The engine knows types that cannot be written; a module that imports or
exports something of such a type is not loaded. The host reads a list entry by entry, and passes over
entries that are not there and those that it cannot read.
-/

namespace WasmHost.Host.Wire

/-! ## Types of items -/

/-- The type of an item on the wire. -/
inductive RawItem where
  | func (type : RawSignature)
  | global (type : RawGlobal)
  | memory (type : RawMemory)
  | table (type : RawTable)
  deriving DecidableEq, Repr

namespace RawItem

/-- The number for the sort of item. -/
def sort : RawItem → Nat
  | func _ => itemByte .func
  | global _ => itemByte .global
  | memory _ => itemByte .memory
  | table _ => itemByte .table

/-- The type of a function. -/
def func? : RawItem → Option RawSignature
  | func type => some type
  | _ => none

/-- The type of a global. -/
def global? : RawItem → Option RawGlobal
  | global type => some type
  | _ => none

/-- The type of a memory. -/
def memory? : RawItem → Option RawMemory
  | memory type => some type
  | _ => none

/-- The type of a table. -/
def table? : RawItem → Option RawTable
  | table type => some type
  | _ => none

/-- Reads the type of an item as the number for its sort says. -/
def read (r : RawItem) : Option ItemType :=
  if r.sort = itemByte .func then r.func?.map fun t => .func t.shown
  else if r.sort = itemByte .global then r.global?.map fun t => .global t.shown
  else if r.sort = itemByte .memory then r.memory?.map fun t => .memory t.shown
  else if r.sort = itemByte .table then r.table?.map fun t => .table t.shown
  else none

end RawItem

/-- A type that the engine knows: that of an item, or something else. -/
inductive EngineType where
  | item (type : ItemType)
  | other
  deriving DecidableEq, Repr

/-- Writes a type, unless there is nothing to write it as. -/
def EngineType.write : EngineType → Option RawItem
  | item (.func s) => some (.func (toldSignature s))
  | item (.global g) => some (.global (toldGlobal g))
  | item (.memory m) => some (.memory (ofMemory m))
  | item (.table t) => some (.table (toldTable t))
  | other => none

/-! ## Imports -/

/-- What a module asks for, to the engine. -/
structure EngineImport where
  module : String
  name : String
  type : EngineType
  deriving DecidableEq, Repr

/-- What a module asks for, on the wire. -/
structure RawImport where
  module : String
  name : String
  type : RawItem
  deriving DecidableEq, Repr

/-- Writes an import. -/
def EngineImport.write (i : EngineImport) : Option RawImport :=
  i.type.write.map fun type => ⟨i.module, i.name, type⟩

/-- The list that a module with some imports is loaded with. There is none if one of them cannot be
written. -/
def writeImports (imports : List EngineImport) : Option (List RawImport) :=
  imports.mapM EngineImport.write

/-- Reads an import. -/
def RawImport.read (r : RawImport) : Option ImportType :=
  r.type.read.map fun type => ⟨r.module, r.name, type⟩

/-- Reads a list of imports, entry by entry. -/
def readImports (raws : List RawImport) : List ImportType :=
  ((List.range raws.length).filterMap (raws[·]?)).filterMap RawImport.read

/-- The imports of a module as the engine knows them. -/
def engineImports (m : Wasm.Module) : List EngineImport :=
  m.importTypes.map fun i => ⟨i.module, i.name, .item i.type⟩

/-- The imports of a module that is loaded, as the host reads them. -/
def listImports (m : Wasm.Module) : List ImportType :=
  ((writeImports (engineImports m)).map readImports).getD []

/-! ## Exports -/

/-- What a module offers, to the engine. -/
structure EngineExport where
  name : String
  type : EngineType
  deriving DecidableEq, Repr

/-- What a module offers, on the wire. -/
structure RawExport where
  name : String
  type : RawItem
  deriving DecidableEq, Repr

/-- Writes an export. -/
def EngineExport.write (e : EngineExport) : Option RawExport :=
  e.type.write.map fun type => ⟨e.name, type⟩

/-- The list that a module with some exports is loaded with. There is none if one of them cannot be
written. -/
def writeExports (exports : List EngineExport) : Option (List RawExport) :=
  exports.mapM EngineExport.write

/-- Reads an export. -/
def RawExport.read (r : RawExport) : Option ExportType := r.type.read.map fun type => ⟨r.name, type⟩

/-- Reads a list of exports, entry by entry. -/
def readExports (raws : List RawExport) : List ExportType :=
  ((List.range raws.length).filterMap (raws[·]?)).filterMap RawExport.read

/-- The exports of a module as the engine knows them. -/
def engineExports (m : Wasm.Module) : List EngineExport :=
  m.exportTypes.map fun e => ⟨e.name, .item e.type⟩

/-- The exports of a module that is loaded, as the host reads them. -/
def listExports (m : Wasm.Module) : List ExportType :=
  ((writeExports (engineExports m)).map readExports).getD []

end WasmHost.Host.Wire
