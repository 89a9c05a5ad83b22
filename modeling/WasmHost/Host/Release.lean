import WasmHost.Host.Act

/-!
# Releasing

Letting go of something may let go of more: the last share of a linker releases its definitions, the
last copy of an origin may release a host object with all that it keeps alive, and a store takes its
host functions with it. Each single release is a step of its own.
-/

namespace WasmHost.Host

/-- The text of the panic for an object of another store. -/
def foreignMessage : String := "object used with a store it does not belong to"

variable {κ σ : Type}

namespace Act

/-! ## Engines, stores and modules -/

/-- One share less of an engine. -/
def releaseEngine (e : Nat) : Act κ σ Unit := update (·.releaseEngine e)

/-- Releases an engine if there is one to release. -/
def releaseEngine? : Option Nat → Act κ σ Unit
  | some e => releaseEngine e
  | none => pure ()

/-- One share less of a store. With the last one, its engine is released. -/
def releaseStore (s : Nat) : Act κ σ Unit := do
  releaseEngine? (← make (·.dismissStore s))

/-- Releases a store if there is one to release. -/
def releaseStore? : Option Nat → Act κ σ Unit
  | some s => releaseStore s
  | none => pure ()

/-- One share less of a module. With the last one, its engine is released. -/
def releaseModule (m : Nat) : Act κ σ Unit := do
  releaseEngine? (← make (·.dismissModule m))

/-! ## Handles -/

/-- One share less of a handle. With the last one, its store is released. -/
def releaseHandle (h : Handle) : Act κ σ Unit := do
  releaseStore? (← make (·.retire h))

/-- Releases wrappers in order. -/
def releaseWrappers : List Wrapper → Act κ σ Unit
  | [] => pure ()
  | x :: rest => do
    releaseHandle x.handle
    releaseWrappers rest

/-- Releases items in order. -/
def releaseItems (items : List Item) : Act κ σ Unit := releaseWrappers (items.map (·.wrapper))

/-! ## Linkers, host objects and values -/

/-- One share less of a linker. With the last one, its definitions are released. -/
def releaseLinker (l : Nat) : Act κ σ Unit := do
  match ← make (·.dismissLinker l) with
  | none => return ()
  | some (e, definitions) =>
    releaseEngine e
    releaseWrappers definitions

/-- One clone less of a host object. -/
def releaseObject (o : ObjectId) : Act κ σ Unit := do
  releaseWrappers (← make (·.dismissObject o))

/-- One copy less of an origin. -/
def releaseOrigin (g : Nat) : Act κ σ Unit := do
  releaseWrappers (← make (·.dismissOrigin g))

/-- Releases copies of origins in order. -/
def releaseOrigins : List Nat → Act κ σ Unit
  | [] => pure ()
  | g :: rest => do
    releaseOrigin g
    releaseOrigins rest

/-- Releases what a value refers to. -/
def releaseVal : Val → Act κ σ Unit
  | .funcref (some h) => releaseHandle h
  | .externref (some o) => releaseObject o
  | _ => pure ()

/-- Releases values in order. -/
def releaseVals : List Val → Act κ σ Unit
  | [] => pure ()
  | v :: vs => do
    releaseVal v
    releaseVals vs

/-! ## Closures -/

/-- Releases what a closure keeps alive. -/
def releaseCapture : Capture → Act κ σ Unit
  | .engine e => releaseEngine e
  | .module m => releaseModule m
  | .linker l => releaseLinker l
  | .wrapper x => releaseHandle x.handle
  | .object o => releaseObject o

/-- Releases what a closure keeps alive, in order. -/
def releaseCaptures : List Capture → Act κ σ Unit
  | [] => pure ()
  | c :: rest => do
    releaseCapture c
    releaseCaptures rest

/-- Takes a closure out of the registry and releases what it holds. -/
def finalize (key : Nat) : Act κ σ Unit := do
  match ← make (·.unregister key) with
  | none => abort (.finalizedTwice key)
  | some r =>
    releaseStore r.store
    releaseCaptures r.captures

/-- Finalises closures in order. -/
def finalizeAll : List Nat → Act κ σ Unit
  | [] => pure ()
  | key :: rest => do
    finalize key
    finalizeAll rest

/-! ## Stores -/

/-- Reclaims several handles of the batch a store is working through, one after the other. -/
def reclaimBatch (s : Nat) : Nat → Act κ σ Unit
  | 0 => pure ()
  | steps + 1 => do
    update (·.reclaimNext s)
    reclaimBatch s steps

/-- Obtains the context of a store: all handles that wait are reclaimed. -/
def context (s : Nat) : Act κ σ Unit := do
  let count ← make (·.beginDrain s)
  reclaimBatch s count

/-- Deletes a store: what waits is reclaimed, then its guest part goes, and with it its host
functions and the host objects it held. -/
def deleteStore (s : Nat) : Act κ σ Unit := do
  context s
  match ← make (·.vacate s) with
  | none => return ()
  | some (keys, held) =>
    finalizeAll keys
    releaseOrigins held
    releaseStore s

end Act

end WasmHost.Host
