import WasmHost.Host.Limits

/-!
# Requests with raw kinds

What the engine makes of types and values whose numbers need not stand for anything. Each request is
carried out on a fresh store of a default engine, and the report tells which closures were finalised
before the store was deleted, and which by its deletion.
-/

namespace WasmHost.Host.Raw

open Act

/-- What is asked of the engine. Closures and host objects are known by numbers. -/
inductive Request where
  | func (type : Wire.RawSignature) (env : Nat)
  | global (type : Wire.RawGlobal) (init : Wire.RawVal)
  | memory (type : Wire.RawMemory)
  | table (type : Wire.RawTable) (init : Wire.RawVal)
  | reference (env : Nat)

/-- What the engine made, as it is read back. -/
inductive Made where
  | func (params results : Nat)
  /-- The kind of the value the global holds, and what becomes of setting the same value again. -/
  | global (type : Wire.RawGlobal) (got : Nat) (set : Except EngineFault Unit)
  | memory (type : Wire.RawMemory)
  | table (type : Wire.RawTable)
  /-- What the reference stands for, and what was finalised when it was released. -/
  | reference (env : Nat) (finalized : List Nat)

/-- The sort of item that was made. -/
def Made.itemKind? : Made → Option ItemKind
  | func .. => some .func
  | global .. => some .global
  | memory _ => some .memory
  | table _ => some .table
  | reference .. => none

/-- What came of a request, and which closures were finalised before and by the deletion of the
store. -/
structure Report where
  result : Except EngineFault Made
  before : List Nat
  after : List Nat

/-- Adds a global and reads it back. The type is looked at first. -/
def makeGlobal (g : Guest.Store) (type : Wire.RawGlobal) (init : Wire.RawVal) :
    Except EngineFault Made := do
  let type ← type.read
  let value ← init.read
  let _ ← Wire.addGlobal g type value
  let set := if type.writable then .ok () else .error .immutableGlobalNative
  return .global (Wire.toldGlobal type) (Wire.toldKind value.kind) set

/-- Adds a memory and reads its type back. -/
def makeMemory (type : Wire.RawMemory) : Except EngineFault Made := do
  return .memory (Wire.ofMemory (← type.read))

/-- Adds a table and reads its type back. The type is looked at first. -/
def makeTable (g : Guest.Store) (type : Wire.RawTable) (init : Wire.RawVal) :
    Except EngineFault Made := do
  let type ← type.read
  let ref ← init.readRef
  let _ ← Wire.addTable g type ref
  return .table (Wire.toldTable type)

/-- An error of the engine's. -/
def raised {α : Type} : Except EngineFault α → Act Nat Unit α
  | .ok a => pure a
  | .error fault => fail (.engine fault)

/-- Carries out a request in a store. -/
def carryOut (s : Nat) : Request → Act Nat Unit Made
  | .func type env => do
    let f ← Func.register s type type.shown env []
    let signature ← Func.typeAt s (← funcPlace s f)
    releaseHandle f
    return .func signature.params.length signature.results.length
  | .global type init => do raised (makeGlobal (← guest s) type init)
  | .memory type => raised (makeMemory type)
  | .table type init => do raised (makeTable (← guest s) type init)
  | .reference env => do
    let o ← make (·.newObject (.number (BitVec.ofNat 64 env)) [])
    releaseObject o
    let gone := ((← world).objects[o]?).any (·.gone)
    return .reference env (if gone then [env] else [])

/-- The closures of a request. -/
def Request.closures : Request → List Nat
  | .func _ env => [env]
  | _ => []

/-- The closures that are registered. -/
def registered (w : World Nat Unit) : List Nat := w.registry.values.map (·.code)

/-- Carries out a request in a store and deletes the store. -/
def reportIn (s : Nat) (r : Request) : Act Nat Unit Report := do
  let result ← attempt (carryOut s r)
  let live := registered (← world)
  deleteStore s
  let left := registered (← world)
  return {
    result := result.mapError fun
      | .engine fault => fault
      | e => .uncoded e.message
    before := r.closures.filter (!live.contains ·)
    after := live.filter (!left.contains ·) }

/-- Carries out a request on a fresh store. -/
def report (r : Request) : Outcome Report :=
  let run : Act Nat Unit Report := do
    let e ← Engine.create .default
    reportIn (← Store.create e) r
  (run (.empty ())).1

end WasmHost.Host.Raw
