import WasmHost.Guest.Execution
import WasmHost.Guest.Failure

/-!
# Instantiation

An instance is made from a module and one item for each of its imports. The items are checked
against the import types first, and a mismatch leaves the store as it was. Then everything the
module defines is added to the store, and active segments are written in order, elements before
data. A start function is left to the caller.
-/

namespace WasmHost.Guest

open Wasm

/-! ## Matching imports -/

/-- Limits promise at least as much as is asked for. -/
def limitsMatch (expected found : Limits) : Bool :=
  expected.min ≤ found.min &&
    match expected.max with
    | none => true
    | some e => found.max.any (· ≤ e)

/-- The first way in which an item does not fit an import. -/
def mismatch? (expected found : ItemType) : Option ImportMismatch :=
  match expected, found with
  | .func e, .func f => if e = f then none else some (.signature e f)
  | .global e, .global f =>
    if e.content ≠ f.content then some (.content e.content f.content)
    else if e.writable ≠ f.writable then some (.writable e.writable)
    else none
  | .memory e, .memory f =>
    if e.shared ≠ f.shared then some (.shared e.shared)
    else if e.wide ≠ f.wide then some (.wide e.wide)
    else if !limitsMatch e.limits f.limits then some (.memoryLimits e.limits f.limits)
    else none
  | .table e, .table f =>
    if e.element ≠ f.element then some (.element e.element f.element)
    else if !limitsMatch e.limits f.limits then some (.tableLimits e.limits f.limits)
    else none
  | e, f => some (.sort e.kind f.kind)

/-- The refusal of the first import whose item does not fit. -/
def checkImports (s : Store) : List (ImportType × Place) → Option EngineFault
  | [] => none
  | (i, place) :: rest =>
    match (s.currentType? place).bind (mismatch? i.type) with
    | some why => some (.incompatibleImport i.module i.name why)
    | none => checkImports s rest

/-! ## Constant expressions -/

/-- Evaluates a constant expression on a stack. -/
def evalConst (s : Store) (i : Instance) : ConstExpr → List Value → Option Value
  | [], [v] => some v
  | [], _ => none
  | .i32Const x :: rest, vs => evalConst s i rest (.i32 x :: vs)
  | .i64Const x :: rest, vs => evalConst s i rest (.i64 x :: vs)
  | .f32Const x :: rest, vs => evalConst s i rest (.f32 x :: vs)
  | .f64Const x :: rest, vs => evalConst s i rest (.f64 x :: vs)
  | .v128Const x :: rest, vs => evalConst s i rest (.v128 x :: vs)
  | .refNull k :: rest, vs => evalConst s i rest (.ref (.null k) :: vs)
  | .refFunc f :: rest, vs => evalConst s i rest (.ref (.func i.funcs[f]?) :: vs)
  | .globalGet g :: rest, vs =>
    match (i.globals[g]?).bind (s.globals[·]?) with
    | some global => evalConst s i rest (global.value :: vs)
    | none => none
  | .intBinary .w32 op :: rest, .i32 y :: .i32 x :: vs =>
    match intBinary op x y with
    | .ok r => evalConst s i rest (.i32 r :: vs)
    | .error _ => none
  | .intBinary .w64 op :: rest, .i64 y :: .i64 x :: vs =>
    match intBinary op x y with
    | .ok r => evalConst s i rest (.i64 r :: vs)
    | .error _ => none
  | _, _ => none

/-! ## Allocation -/

/-- The places of imported items of one sort, in order. -/
def importedPlaces (imports : List Place) (select : Place → Option Nat) : Array Nat :=
  (imports.filterMap select).toArray

/-- An instance with its imports and nothing of its own. -/
def Instance.ofImports (module : Module) (imports : List Place) : Instance where
  module := module
  funcs := importedPlaces imports fun | .func i => some i | _ => none
  tables := importedPlaces imports fun | .table i => some i | _ => none
  memories := importedPlaces imports fun | .memory i => some i | _ => none
  globals := importedPlaces imports fun | .global i => some i | _ => none
  droppedElements := module.elements.map fun e => match e.mode with | .passive => false | _ => true
  droppedDatas := module.datas.map fun d => match d.mode with | .passive => false | _ => true

/-- Adds the functions a module defines. -/
def addFuncs (instance_ : Nat) : List (Nat × Body) → Store → Instance → Store × Instance
  | [], s, i => (s, i)
  | (type, body) :: rest, s, i =>
    let type := (i.module.types[type]?).getD default
    let (place, s) := s.addFunc (.guest instance_ i.funcs.size type body)
    addFuncs instance_ rest s { i with funcs := i.funcs.push place }

/-- Adds the tables a module defines. -/
def addTables : List TableType → Store → Instance → Store × Instance
  | [], s, i => (s, i)
  | type :: rest, s, i =>
    let (place, s) := s.addTable (.ofType type (.null type.element))
    addTables rest s { i with tables := i.tables.push place }

/-- Adds the memories a module defines. -/
def addMemories : List MemoryType → Store → Instance → Store × Instance
  | [], s, i => (s, i)
  | type :: rest, s, i =>
    let (place, s) := s.addMemory (.ofType type)
    addMemories rest s { i with memories := i.memories.push place }

/-- Adds the globals a module defines; each may use those before it. -/
def addGlobals : List GlobalDef → Store → Instance → Store × Instance
  | [], s, i => (s, i)
  | g :: rest, s, i =>
    let value := (evalConst s i g.init []).getD (.zero g.type.content)
    let (place, s) := s.addGlobal ⟨g.type, value⟩
    addGlobals rest s { i with globals := i.globals.push place }

/-- Adds everything a module defines, and the instance. -/
def allocate (s : Store) (module : Module) (imports : List Place) : Nat × Store :=
  let number := s.instances.size
  let i := Instance.ofImports module imports
  let (s, i) := addFuncs number (module.funcs.zip module.bodies).toList s i
  let (s, i) := addTables module.tables.toList s i
  let (s, i) := addMemories module.memories.toList s i
  let (s, i) := addGlobals module.globals.toList s i
  (number, { s with instances := s.instances.push i })

/-! ## Active segments -/

/-- Where an active segment goes. -/
def segmentStart (s : Store) (i : Instance) (offset : ConstExpr) : Nat :=
  ((evalConst s i offset []).bind Value.toIndex?).getD 0

/-- Writes an active element segment; `none` if it does not fit. -/
def writeElements (i : Instance) (s : Store) (e : ElementSegment) : Option Store :=
  match e.mode with
  | .active table offset =>
    match (i.tables[table]?).bind fun place => (s.tables[place]?).map fun t => (place, t) with
    | none => some s
    | some (place, t) =>
      let refs := e.items.map fun item => match evalConst s i item [] with
        | some (.ref r) => r
        | _ => .null e.kind
      (t.write? (segmentStart s i offset) refs).map (s.putTable place)
  | _ => some s

/-- Writes an active data segment; `none` if it does not fit. -/
def writeData (i : Instance) (s : Store) (d : DataSegment) : Option Store :=
  match d.mode with
  | .active memory offset =>
    match (i.memories[memory]?).bind fun place => (s.memories[place]?).map fun m => (place, m) with
    | none => some s
    | some (place, m) =>
      (m.write? (segmentStart s i offset) d.bytes.toList).map (s.putMemory place)
  | _ => some s

/-- Writes segments in order, up to the first that does not fit. -/
def writeAll {α : Type} (write : Store → α → Option Store) : List α → Store → Bool × Store
  | [], s => (true, s)
  | x :: rest, s =>
    match write s x with
    | some s => writeAll write rest s
    | none => (false, s)

/-- Whether all segments would fit, each by itself. -/
def allFit {α : Type} (write : Store → α → Option Store) (segments : List α) (s : Store) : Bool :=
  segments.all fun x => (write s x).isSome

/-- Writes all active segments of an instance. Without the bulk operations, nothing is written
unless everything fits. -/
def initialise (s : Store) (i : Instance) (bulk : Bool) : Option Reason × Store :=
  let elements := i.module.elements.toList
  let datas := i.module.datas.toList
  if !bulk && !allFit (writeElements i) elements s then (some (.refusal .segmentTable), s)
  else if !bulk && !allFit (writeData i) datas s then (some (.refusal .segmentMemory), s)
  else
    match writeAll (writeElements i) elements s with
    | (false, s) => (some (.trap (.coded .tableOutOfBounds)), s)
    | (true, s) =>
      match writeAll (writeData i) datas s with
      | (false, s) => (some (.trap (.coded .memoryOutOfBounds)), s)
      | (true, s) => (none, s)

/-! ## Instances -/

/-- A new instance, and the function it starts with. -/
structure Started where
  instance_ : Nat
  start : Option Nat

/-- Makes an instance from a module and the places of its imports. -/
def instantiate (s : Store) (bulk : Bool) (module : Module) (imports : List Place) :
    Except Failure Started × Store :=
  match checkImports s (module.importTypes.zip imports) with
  | some fault => (.error ⟨.refusal fault, []⟩, s)
  | none =>
    let (number, s) := allocate s module imports
    match s.instances[number]? with
    | none => (.ok ⟨number, none⟩, s)
    | some i =>
      match initialise s i bulk with
      | (some reason, s) => (.error ⟨reason, []⟩, s)
      | (none, s) => (.ok ⟨number, module.start.bind (i.funcs[·]?)⟩, s)

end WasmHost.Guest
