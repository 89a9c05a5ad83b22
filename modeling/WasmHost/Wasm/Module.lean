import WasmHost.Wasm.Instr

/-!
# Modules

The parts of a decoded module. Index spaces list imports before definitions, so `Module.funcTypes`,
`tableTypes`, `memoryTypes` and `globalTypes` give the type at every index.
-/

namespace WasmHost.Wasm

/-- A straight-line expression evaluated when a module is instantiated. -/
abbrev ConstExpr := List Instr

/-- What an import asks for; a function's type is an index. -/
inductive ImportDesc where
  | func (type : Nat)
  | table (type : TableType)
  | memory (type : MemoryType)
  | global (type : GlobalType)
  deriving Repr

/-- An import. -/
structure Import where
  module : String
  name : String
  desc : ImportDesc
  deriving Repr

/-- A global defined by the module. -/
structure GlobalDef where
  type : GlobalType
  init : ConstExpr
  deriving Repr

/-- An export: a name for an index of one of the four index spaces. -/
structure Export where
  name : String
  kind : ItemKind
  index : Nat
  deriving Repr

/-- When a segment is used. -/
inductive SegmentMode where
  | passive
  | declared
  | active (index : Nat) (offset : ConstExpr)
  deriving Repr

/-- References that initialise tables. -/
structure ElementSegment where
  kind : Kind
  mode : SegmentMode
  items : List ConstExpr
  deriving Repr

/-- Bytes that initialise memories. -/
structure DataSegment where
  mode : SegmentMode
  bytes : ByteArray

/-- Pairs every opening instruction with the instruction that ends its first part: an `else`, or the
end of the block. An `else` is paired with the end. `opened` holds the positions still open. -/
def linkFrom (code : Array LocatedInstr) : Nat → Nat → List Nat → Array Nat → Array Nat
  | 0, _, _, jumps => jumps
  | fuel + 1, pos, opened, jumps =>
    match code[pos]? with
    | none => jumps
    | some i =>
      match i.instr with
      | .block _ | .loop _ | .if_ _ => linkFrom code fuel (pos + 1) (pos :: opened) jumps
      | .else_ =>
        match opened with
        | start :: rest =>
          linkFrom code fuel (pos + 1) (pos :: rest) (jumps.setIfInBounds start pos)
        | [] => linkFrom code fuel (pos + 1) [] jumps
      | .end_ =>
        match opened with
        | start :: rest => linkFrom code fuel (pos + 1) rest (jumps.setIfInBounds start pos)
        | [] => linkFrom code fuel (pos + 1) [] jumps
      | _ => linkFrom code fuel (pos + 1) opened jumps

/-- The pairing for a whole body. -/
def link (code : Array LocatedInstr) : Array Nat :=
  linkFrom code (code.size + 1) 0 [] (Array.replicate code.size code.size)

/-- A function body. `start` is the offset in the module of its first byte, the one after its size;
`jumps` gives for each opening instruction the position of the instruction that ends its first
part. -/
structure Body where
  start : Nat
  locals : List Kind
  code : Array LocatedInstr
  jumps : Array Nat
  linked : jumps = link code

/-- A body whose instructions are paired as they stand. -/
def Body.ofCode (start : Nat) (locals : List Kind) (code : Array LocatedInstr) : Body :=
  ⟨start, locals, code, link code, rfl⟩

instance : Inhabited Body := ⟨.ofCode 0 [] #[]⟩

/-- A decoded module. -/
structure Module where
  types : Array Signature
  imports : Array Import
  funcs : Array Nat
  tables : Array TableType
  memories : Array MemoryType
  globals : Array GlobalDef
  exports : Array Export
  start : Option Nat
  elements : Array ElementSegment
  dataCount : Option Nat
  bodies : Array Body
  datas : Array DataSegment
  name : Option String
  funcNames : List (Nat × String)

instance : Inhabited Module :=
  ⟨⟨#[], #[], #[], #[], #[], #[], #[], none, #[], none, #[], #[], none, []⟩⟩

namespace Module

/-- A module with nothing in it. -/
def empty : Module := default

/-- The type index of every function. -/
def funcTypes (m : Module) : Array Nat :=
  (m.imports.filterMap fun i => match i.desc with | .func t => some t | _ => none) ++ m.funcs

/-- The type of every table. -/
def tableTypes (m : Module) : Array TableType :=
  (m.imports.filterMap fun i => match i.desc with | .table t => some t | _ => none) ++ m.tables

/-- The type of every memory. -/
def memoryTypes (m : Module) : Array MemoryType :=
  (m.imports.filterMap fun i => match i.desc with | .memory t => some t | _ => none) ++ m.memories

/-- The types of imported globals. -/
def importedGlobals (m : Module) : Array GlobalType :=
  m.imports.filterMap fun i => match i.desc with | .global t => some t | _ => none

/-- The type of every global. -/
def globalTypes (m : Module) : Array GlobalType := m.importedGlobals ++ m.globals.map (·.type)

/-- The signature of a function. -/
def signature? (m : Module) (func : Nat) : Option Signature :=
  m.funcTypes[func]?.bind (m.types[·]?)

/-- The name the module gives a function. -/
def funcName? (m : Module) (func : Nat) : Option String :=
  (m.funcNames.find? (·.1 == func)).map (·.2)

/-- The type an import asks for. -/
def importType (m : Module) (i : Import) : ImportType :=
  { module := i.module
    name := i.name
    type := match i.desc with
      | .func t => .func ((m.types[t]?).getD default)
      | .table t => .table t
      | .memory t => .memory t
      | .global t => .global t }

/-- The types of all imports, in order. -/
def importTypes (m : Module) : List ImportType := m.imports.toList.map m.importType

/-- The type of an export. -/
def exportType (m : Module) (e : Export) : ExportType :=
  { name := e.name
    type := match e.kind with
      | .func => .func ((m.signature? e.index).getD default)
      | .table => .table ((m.tableTypes[e.index]?).getD default)
      | .memory => .memory ((m.memoryTypes[e.index]?).getD default)
      | .global => .global ((m.globalTypes[e.index]?).getD default) }

/-- The types of all exports, in order. -/
def exportTypes (m : Module) : List ExportType := m.exports.toList.map m.exportType

end Module

end WasmHost.Wasm
