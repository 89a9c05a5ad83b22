import WasmHost.Guest.Memory
import WasmHost.Guest.Table
import WasmHost.Wasm.Module
import WasmHost.Trap

/-!
# The engine's store

A store holds the functions, tables, memories, globals and instances that exist in it, each under
its place in an array; nothing is ever removed before the store itself goes. It also holds the
account of fuel, the deadline, and the guest frames that are suspended while the host runs.
-/

namespace WasmHost.Guest

/-- A function: a body of an instance's module, or a host function, known by a key. -/
inductive Func where
  | guest (instance_ index : Nat) (type : Signature) (body : Wasm.Body)
  | host (key : Nat) (type : Signature)
  deriving Inhabited

/-- The type of a function. -/
def Func.type : Func → Signature
  | guest _ _ type _ => type
  | host _ type => type

/-- The key of a host function. -/
def Func.key? : Func → Option Nat
  | guest .. => none
  | host key _ => some key

/-- A global variable. -/
structure Global where
  type : GlobalType
  value : Value
  deriving Inhabited

/-- An instance: its module, the places of everything in its index spaces, and which segments have
been dropped. -/
structure Instance where
  module : Wasm.Module
  funcs : Array Nat
  tables : Array Nat
  memories : Array Nat
  globals : Array Nat
  droppedElements : Array Bool
  droppedDatas : Array Bool
  deriving Inhabited

/-- Where an item is. -/
inductive Place where
  | func (index : Nat)
  | global (index : Nat)
  | memory (index : Nat)
  | table (index : Nat)
  deriving DecidableEq, Repr, Inhabited

/-- The sort of item at a place. -/
def Place.kind : Place → ItemKind
  | func _ => .func
  | global _ => .global
  | memory _ => .memory
  | table _ => .table

namespace Place

variable {p : Place}

theorem exists_func (h : p.kind = .func) : ∃ i, p = func i := by
  cases p with
  | func i => exact ⟨i, rfl⟩
  | _ => cases h

theorem exists_global (h : p.kind = .global) : ∃ i, p = global i := by
  cases p with
  | global i => exact ⟨i, rfl⟩
  | _ => cases h

theorem exists_memory (h : p.kind = .memory) : ∃ i, p = memory i := by
  cases p with
  | memory i => exact ⟨i, rfl⟩
  | _ => cases h

theorem exists_table (h : p.kind = .table) : ∃ i, p = table i := by
  cases p with
  | table i => exact ⟨i, rfl⟩
  | _ => cases h

end Place

/-- What limits the running of code in a store. -/
structure Meters where
  /-- Fuel is counted. -/
  fuel : Bool
  /-- The deadline is checked. -/
  deadline : Bool
  /-- Bytes of stack. -/
  stack : Nat
  deriving DecidableEq, Repr, Inhabited

/-- The contents of a store. -/
structure Store where
  meters : Meters
  funcs : Array Func
  tables : Array Table
  memories : Array Memory
  globals : Array Global
  instances : Array Instance
  /-- Fuel granted when it was last set. -/
  granted : Nat
  /-- Fuel charged since. -/
  charged : Nat
  /-- The epoch at which code is interrupted. -/
  deadline : Nat
  /-- Bytes of stack in use. -/
  stackUsed : Nat
  /-- The frames that were active when guest code last called out, innermost first. -/
  exited : List Frame
  /-- The same for each entry into guest code that has not returned, innermost first. -/
  suspended : List (List Frame)
  deriving Inhabited

namespace Store

/-- A store without contents. -/
def empty (meters : Meters) : Store where
  meters := meters
  funcs := #[]
  tables := #[]
  memories := #[]
  globals := #[]
  instances := #[]
  granted := 0
  charged := 0
  deadline := 0
  stackUsed := 0
  exited := []
  suspended := []

/-- Fuel that is left. -/
def fuelLeft (s : Store) : Nat := s.granted - s.charged

/-- Sets the fuel that is left. -/
def setFuel (s : Store) (fuel : Nat) : Store := { s with granted := fuel, charged := 0 }

/-- Adds a function, and gives its place. -/
def addFunc (s : Store) (f : Func) : Nat × Store :=
  (s.funcs.size, { s with funcs := s.funcs.push f })

/-- Adds a table, and gives its place. -/
def addTable (s : Store) (t : Table) : Nat × Store :=
  (s.tables.size, { s with tables := s.tables.push t })

/-- Adds a memory, and gives its place. -/
def addMemory (s : Store) (m : Memory) : Nat × Store :=
  (s.memories.size, { s with memories := s.memories.push m })

/-- Adds a global, and gives its place. -/
def addGlobal (s : Store) (g : Global) : Nat × Store :=
  (s.globals.size, { s with globals := s.globals.push g })

/-- The type of the item at a place, as it was declared. -/
def declaredType? (s : Store) : Place → Option ItemType
  | .func i => s.funcs[i]?.map fun f => .func f.type
  | .global i => s.globals[i]?.map fun g => .global g.type
  | .memory i => s.memories[i]?.map fun m => .memory m.type
  | .table i => s.tables[i]?.map fun t => .table t.type

/-- The type of the item at a place, with the current size of memories and tables. -/
def currentType? (s : Store) : Place → Option ItemType
  | .memory i => s.memories[i]?.map fun m => .memory m.currentType
  | .table i => s.tables[i]?.map fun t => .table t.currentType
  | place => s.declaredType? place

/-- The frames a failure reports: the active ones, then those of every enclosing entry, up to the
first that has none. -/
def backtrace (s : Store) (active : List Frame) : List Frame :=
  ((active :: s.suspended).takeWhile (!·.isEmpty)).flatten

end Store

namespace Instance

/-- The place of an item of an index space. -/
def place? (i : Instance) (kind : ItemKind) (index : Nat) : Option Place :=
  match kind with
  | .func => i.funcs[index]?.map .func
  | .global => i.globals[index]?.map .global
  | .memory => i.memories[index]?.map .memory
  | .table => i.tables[index]?.map .table

/-- The places of all exports, with their names, in order. -/
def exports (i : Instance) : List (String × Place) :=
  i.module.exports.toList.filterMap fun e => (i.place? e.kind e.index).map fun p => (e.name, p)

/-- The place of the export with a name. -/
def export? (i : Instance) (name : String) : Option Place := i.exports.lookup name

/-- The frame of a function of the instance, for the instruction at an offset in the module. -/
def frame (i : Instance) (func : Nat) (bodyStart offset : Nat) : Frame where
  funcIndex := func
  funcName := i.module.funcName? func
  funcOffset := some (offset - bodyStart)
  moduleName := i.module.name
  moduleOffset := some offset

end Instance

end WasmHost.Guest
