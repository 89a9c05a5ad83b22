import WasmHost.Slab
import WasmHost.Reclaim
import WasmHost.Config
import WasmHost.CompiledModule
import WasmHost.GuestLog
import WasmHost.Guest.Store
import WasmHost.Host.Value

/-!
# The world of an embedder

Engines, modules, stores, linkers, host objects and handles, with a count of everything that shares
each of them. Sharing is explicit: whoever keeps a handle or an object retains it once and releases
it once.

A handle is an allocation under an address. While it is shared it is *owned*; the last release puts
its address into the queue of its store, where it *waits*; reclaiming it frees the address, which
may then be handed out again. A store keeps a share of itself for each owned handle and each
registered closure, and what still waits when the last share goes is reclaimed then.

Everything here happens at one go: no thread sees the world in the middle of any of it. What takes
several such steps, like the release of a closure with all that it keeps alive, is an action
(`Host.Act`, `Host.Release`).

The world is generic in `κ`, the code of host closures, and in `σ`, the embedder's own state.
-/

namespace WasmHost.Host

/-- What a panic carries. -/
inductive Payload where
  | text (message : String)
  | number (n : Nat)
  deriving DecidableEq, Repr

/-- A broken rule of ownership. None of them ever happens; they are recorded so that this can be
stated. -/
inductive Fault where
  /-- A guest called a closure that is not registered. -/
  | unregistered (key : Nat)
  /-- A closure was finalised that is not registered. -/
  | finalizedTwice (key : Nat)
  /-- A handle was enqueued that already waits. -/
  | enqueuedTwice (handle : Handle)
  /-- A handle was used that has been reclaimed, or waits. -/
  | dangling (handle : Handle)
  /-- A store was given the payload of a panic while it kept another. -/
  | overwritten (store : Nat)
  /-- The engine was given something to use in a store that belongs to another one. -/
  | foreign (store : Nat)
  /-- Something was asked for that is not there, or guest code came to an instruction that is valid but
  has no meaning here (`Wasm.Instr.checkedOnly`). -/
  | stuck
  deriving DecidableEq, Repr

/-- What a handle stands for, which belongs to a store. Some exports are things the host has no view
of. -/
inductive Target where
  | item (store : Nat) (place : Guest.Place)
  | unsupported (store : Nat)
  | instance_ (store number : Nat)
  deriving DecidableEq, Repr, Inhabited

/-- The store that a target belongs to. -/
def Target.store : Target → Nat
  | item s _ | unsupported s | instance_ s _ => s

/-- The sort of thing that a handle stands for. -/
inductive HandleSort where
  | item (kind : ItemKind)
  | unsupported
  | instance_
  deriving DecidableEq, Repr

/-- The sort of a target. -/
def Target.sort : Target → HandleSort
  | item _ place => .item place.kind
  | unsupported _ => .unsupported
  | instance_ _ _ => .instance_

/-- The target of a handle for an export of a type. The host has no view of shared memories. -/
def exportTarget (s : Nat) (place : Guest.Place) : ItemType → Target
  | .memory type => if type.shared then .unsupported s else .item s place
  | _ => .item s place

/-- An allocated handle. It waits for reclamation once nothing shares it. -/
structure HandleCell where
  /-- The store that the handle shares, and that it may be used with. -/
  store : Nat
  target : Target
  shares : Nat
  /-- How many handles had been allocated before. -/
  number : Nat
  deriving DecidableEq, Repr, Inhabited

/-- An item as host code holds it. -/
structure Item where
  kind : ItemKind
  handle : Handle
  deriving DecidableEq, Repr, Inhabited

/-- Any handle as host code holds it. -/
structure Wrapper where
  handle : Handle
  sort : HandleSort
  deriving DecidableEq, Repr

/-- An item is held by its handle. -/
def Item.wrapper (i : Item) : Wrapper := ⟨i.handle, .item i.kind⟩

/-- What a closure keeps alive. -/
inductive Capture where
  | engine (e : Nat)
  | module (m : Nat)
  | linker (l : Nat)
  | wrapper (x : Wrapper)
  | object (o : ObjectId)
  deriving DecidableEq, Repr

/-- A closure that guests can call: its store and type, its code, and what it keeps alive. -/
structure Registration (κ : Type) where
  store : Nat
  type : Signature
  code : κ
  captures : List Capture
  /-- How many closures had been registered before. -/
  number : Nat

/-- An engine. -/
structure EngineCell where
  config : EngineConfig
  epoch : Nat
  shares : Nat
  deriving Inhabited

/-- A module of an engine. -/
structure ModuleCell where
  compiled : CompiledModule
  engine : Nat
  shares : Nat
  deriving Inhabited

/-- A store. The guest part is there until the store is deleted; what is shared remains as long as
anything shares it. -/
structure StoreCell where
  engine : Nat
  guest : Option Guest.Store
  /-- Copies of origins that the guest part holds. -/
  held : List Nat
  queue : ReclaimQueue Handle
  /-- The payload of a panic on its way through guest code. -/
  panic : Option Payload
  shares : Nat
  deriving Inhabited

/-- The data of a host object. -/
inductive HostData where
  | text (value : String)
  | number (value : BitVec 64)
  | bytes (value : List UInt8)
  deriving DecidableEq, Repr, Inhabited

/-- A host object. It lives while the host has clones of it, or origins refer to it. -/
structure ObjectCell where
  data : HostData
  captures : List Wrapper
  clones : Nat
  origins : Nat
  deriving Inhabited

/-- Nothing refers to an object any more. -/
def ObjectCell.gone (c : ObjectCell) : Bool := c.clones + c.origins == 0

/-- What a host object is to an engine: created each time one is passed in, and released when its
last copy is. -/
structure OriginCell where
  object : ObjectId
  copies : Nat
  deriving Inhabited

/-- Definitions by module and name, in the order in which their pairs were first defined. -/
abbrev Definitions := List ((String × String) × Item)

/-- Definitions, and what else a linker keeps. -/
structure LinkerCell where
  engine : Nat
  definitions : Definitions
  shadowing : Bool
  shares : Nat
  deriving Inhabited

/-- A host function that was made: where it is, its key, and the closure that was registered for
it. -/
structure HostFunction (κ : Type) where
  store : Nat
  place : Nat
  key : Nat
  closure : Registration κ

/-- A call of a host function: its store and key, the closure that was under the key, and the payload
that the store kept. -/
structure Entry (κ : Type) where
  store : Nat
  key : Nat
  closure : Option (Registration κ)
  panic : Option Payload

/-- What has been done so far. It is kept for the record, last things first; nothing depends on
it. -/
structure Chronicle (κ : Type) where
  /-- The stores of the handles that have been allocated, by their numbers. -/
  allocated : Array Nat
  /-- The numbers of the handles that have been reclaimed. -/
  reclaimed : List Nat
  /-- How many closures have been registered. -/
  registered : Nat
  /-- The numbers of the closures that have been finalised. -/
  finalized : List Nat
  /-- The host functions that have been made. -/
  functions : List (HostFunction κ)
  /-- The calls of host functions. -/
  entries : List (Entry κ)
  /-- The closures that were called, each with the kinds of what it was given. -/
  passed : List (Registration κ × List Kind)
  /-- The engines that have been deleted. -/
  engines : List Nat

/-- Nothing has been done. -/
def Chronicle.empty {κ : Type} : Chronicle κ := ⟨#[], [], 0, [], [], [], [], []⟩

/-- Everything. -/
structure World (κ σ : Type) where
  engines : Array EngineCell
  modules : Array ModuleCell
  stores : Array StoreCell
  linkers : Array LinkerCell
  objects : Array ObjectCell
  origins : Array OriginCell
  logs : Array GuestLog
  heap : Slab HandleCell
  registry : Slab (Registration κ)
  faults : List Fault
  chronicle : Chronicle κ
  user : σ

namespace World

variable {κ σ : Type}

/-- A world without contents. -/
def empty (user : σ) : World κ σ where
  engines := #[]
  modules := #[]
  stores := #[]
  linkers := #[]
  objects := #[]
  origins := #[]
  logs := #[]
  heap := .empty
  registry := .empty
  faults := []
  chronicle := .empty
  user := user

/-- Records a fault. -/
def fault (w : World κ σ) (f : Fault) : World κ σ := { w with faults := w.faults ++ [f] }

/-- Changes a store. -/
def modifyStore (w : World κ σ) (s : Nat) (f : StoreCell → StoreCell) : World κ σ :=
  { w with stores := w.stores.modify s f }

/-- The guest part of a store. -/
def guest? (w : World κ σ) (s : Nat) : Option Guest.Store := (w.stores[s]?).bind (·.guest)

/-! ## Reclaiming -/

/-- Deletes what an address stands for; the address is free again. -/
def reclaim (w : World κ σ) (h : Handle) : World κ σ :=
  match w.heap.remove h with
  | (some cell, heap) =>
    { w with
      heap
      chronicle := { w.chronicle with reclaimed := cell.number :: w.chronicle.reclaimed } }
  | (none, _) => w.fault (.dangling h)

/-- A drain of a store begins. It gives the number of handles it will reclaim. -/
def beginDrain (w : World κ σ) (s : Nat) : Nat × World κ σ :=
  match w.stores[s]? with
  | none => (0, w)
  | some cell =>
    let queue := cell.queue.beginDrain
    (queue.batch.length, w.modifyStore s fun c => { c with queue })

/-- Reclaims the next handle of the batch a store is working through. -/
def reclaimNext (w : World κ σ) (s : Nat) : World κ σ :=
  match (w.stores[s]?).bind (·.queue.next?) with
  | none => w
  | some (h, queue) => (w.modifyStore s fun c => { c with queue }).reclaim h

/-- Reclaims several handles of the batch. -/
def reclaimBatch (w : World κ σ) (s : Nat) : Nat → World κ σ
  | 0 => w
  | steps + 1 => reclaimBatch (w.reclaimNext s) s steps

/-- Reclaims every handle of a store that waits now, in order and at one go. -/
def drain (w : World κ σ) (s : Nat) : World κ σ :=
  let (count, w) := w.beginDrain s
  w.reclaimBatch s count

/-- The number of handles of a store that wait. -/
def pending (w : World κ σ) (s : Nat) : Nat := ((w.stores[s]?).map (·.queue.len)).getD 0

/-! ## Releasing -/

/-- One share less of an engine. With the last one, it is deleted. -/
def releaseEngine (w : World κ σ) (e : Nat) : World κ σ :=
  match w.engines[e]? with
  | none => w
  | some cell =>
    let w := { w with engines := w.engines.modify e fun c => { c with shares := c.shares - 1 } }
    if cell.shares = 1 then
      { w with chronicle := { w.chronicle with engines := e :: w.chronicle.engines } }
    else w

/-- One share less of a store. With the last one, what waits is reclaimed, and the store leaves its
engine to be released. -/
def dismissStore (w : World κ σ) (s : Nat) : Option Nat × World κ σ :=
  match w.stores[s]? with
  | none => (none, w)
  | some cell =>
    (if cell.shares = 1 then some cell.engine else none,
      (if cell.shares = 1 then w.drain s else w).modifyStore s
        fun c => { c with shares := c.shares - 1 })

/-- A handle starts to wait. -/
def enqueue (w : World κ σ) (s : Nat) (h : Handle) : World κ σ :=
  match (w.stores[s]?).bind (·.queue.enqueue? h) with
  | some queue => w.modifyStore s fun c => { c with queue }
  | none => w.fault (.enqueuedTwice h)

/-- One share less of a handle. With the last one, it starts to wait, and leaves its share of its
store to be released. -/
def retire (w : World κ σ) (h : Handle) : Option Nat × World κ σ :=
  match w.heap.get? h with
  | none => (none, w.fault (.dangling h))
  | some cell =>
    if cell.shares = 0 then (none, w.fault (.dangling h))
    else
      let w := { w with heap := w.heap.modify h fun c => { c with shares := c.shares - 1 } }
      if cell.shares = 1 then (some cell.store, w.enqueue cell.store h) else (none, w)

/-- Reclaims a handle at once if it is shared only once. It leaves its share of its store to be
released. -/
def reclaimSole (w : World κ σ) (h : Handle) : Option Nat × World κ σ :=
  match w.heap.get? h with
  | none => (none, w)
  | some cell => if cell.shares = 1 then (some cell.store, w.reclaim h) else (none, w)

/-- One share less of a module. With the last one, it is deleted, and leaves its engine to be
released. -/
def dismissModule (w : World κ σ) (m : Nat) : Option Nat × World κ σ :=
  match w.modules[m]? with
  | none => (none, w)
  | some cell =>
    (if cell.shares = 1 then some cell.engine else none,
      { w with modules := w.modules.modify m fun c => { c with shares := c.shares - 1 } })

/-- One share less of a linker. With the last one, it goes, and leaves its engine and its
definitions to be released. -/
def dismissLinker (w : World κ σ) (l : Nat) : Option (Nat × List Wrapper) × World κ σ :=
  match w.linkers[l]? with
  | none => (none, w)
  | some cell =>
    (if cell.shares = 1 then some (cell.engine, cell.definitions.map (·.2.wrapper)) else none,
      { w with linkers := w.linkers.modify l fun c => { c with shares := c.shares - 1 } })

/-- Changes the counts of a host object. If it goes with that, it leaves what it kept alive to be
released. -/
def reduceObject (w : World κ σ) (o : ObjectId) (f : ObjectCell → ObjectCell) :
    List Wrapper × World κ σ :=
  match w.objects[o]? with
  | none => ([], w)
  | some cell =>
    (if (f cell).gone && !cell.gone then cell.captures else [],
      { w with objects := w.objects.setIfInBounds o (f cell) })

/-- One clone less of a host object. -/
def dismissObject (w : World κ σ) (o : ObjectId) : List Wrapper × World κ σ :=
  w.reduceObject o fun c => { c with clones := c.clones - 1 }

/-- One copy less of an origin. With the last one, the origin lets go of its object. -/
def dismissOrigin (w : World κ σ) (g : Nat) : List Wrapper × World κ σ :=
  match w.origins[g]? with
  | none => ([], w)
  | some cell =>
    let w := { w with origins := w.origins.modify g fun c => { c with copies := c.copies - 1 } }
    if cell.copies = 1 then w.reduceObject cell.object fun c => { c with origins := c.origins - 1 }
    else ([], w)

/-- Looks up the closure of a host function of a store, which is to be given values of certain
kinds. -/
def lookup (w : World κ σ) (s key : Nat) (kinds : List Kind) :
    Option (Registration κ) × World κ σ :=
  let closure := w.registry.get? key
  let entry : Entry κ := ⟨s, key, closure, (w.stores[s]?).bind (·.panic)⟩
  let passed := closure.toList.map fun r => (r, kinds)
  (closure,
    { w with
      chronicle := { w.chronicle with
        entries := entry :: w.chronicle.entries
        passed := passed ++ w.chronicle.passed } })

/-- Takes a closure out of the registry. -/
def unregister (w : World κ σ) (key : Nat) : Option (Registration κ) × World κ σ :=
  match w.registry.remove key with
  | (some r, registry) =>
    (some r,
      { w with
        registry
        chronicle := { w.chronicle with finalized := r.number :: w.chronicle.finalized } })
  | (none, _) => (none, w)

/-- The keys of the host functions of a store, in the order of their creation. -/
def hostKeys (g : Guest.Store) : List Nat := g.funcs.toList.filterMap Guest.Func.key?

/-- Deletes the guest part of a store. It leaves the keys of its host functions and the copies of
origins that it held. -/
def vacate (w : World κ σ) (s : Nat) : Option (List Nat × List Nat) × World κ σ :=
  match w.stores[s]? with
  | none => (none, w)
  | some cell =>
    (cell.guest.map fun g => (hostKeys g, cell.held),
      w.modifyStore s fun c => { c with guest := none, held := [] })

/-! ## Retaining -/

/-- One share more of an engine. -/
def retainEngine (w : World κ σ) (e : Nat) : World κ σ :=
  { w with engines := w.engines.modify e fun c => { c with shares := c.shares + 1 } }

/-- One share more of a store. -/
def retainStore (w : World κ σ) (s : Nat) : World κ σ :=
  w.modifyStore s fun c => { c with shares := c.shares + 1 }

/-- One share more of a module. -/
def retainModule (w : World κ σ) (m : Nat) : World κ σ :=
  { w with modules := w.modules.modify m fun c => { c with shares := c.shares + 1 } }

/-- One share more of a linker. -/
def retainLinker (w : World κ σ) (l : Nat) : World κ σ :=
  { w with linkers := w.linkers.modify l fun c => { c with shares := c.shares + 1 } }

/-- One share more of a handle. -/
def retainHandle (w : World κ σ) (h : Handle) : World κ σ :=
  { w with heap := w.heap.modify h fun c => { c with shares := c.shares + 1 } }

/-- One clone more of a host object. -/
def retainObject (w : World κ σ) (o : ObjectId) : World κ σ :=
  { w with objects := w.objects.modify o fun c => { c with clones := c.clones + 1 } }

/-- Retains what a value refers to. -/
def retainVal (w : World κ σ) : Val → World κ σ
  | .funcref (some h) => w.retainHandle h
  | .externref (some o) => w.retainObject o
  | _ => w

/-- One clone more of the host object of an origin. -/
def retainObjectOf (w : World κ σ) (g : Nat) : Option ObjectId × World κ σ :=
  match w.origins[g]? with
  | none => (none, w)
  | some cell => (some cell.object, w.retainObject cell.object)

/-- Retains what a closure keeps alive. -/
def retainCapture (w : World κ σ) : Capture → World κ σ
  | .engine e => w.retainEngine e
  | .module m => w.retainModule m
  | .linker l => w.retainLinker l
  | .wrapper x => w.retainHandle x.handle
  | .object o => w.retainObject o

/-- One copy more of an origin. -/
def retainOrigin (w : World κ σ) (g : Nat) : World κ σ :=
  { w with origins := w.origins.modify g fun c => { c with copies := c.copies + 1 } }

/-! ## Creating -/

/-- Allocates a handle for something in a store. It is shared once, and shares the store. -/
def newHandle (w : World κ σ) (store : Nat) (target : Target) : Handle × World κ σ :=
  let (h, heap) := w.heap.insert ⟨store, target, 1, w.chronicle.allocated.size⟩
  let chronicle := { w.chronicle with allocated := w.chronicle.allocated.push store }
  (h, { w with heap, chronicle }.retainStore store)

/-- Adds an engine. -/
def newEngine (w : World κ σ) (config : EngineConfig) : Nat × World κ σ :=
  (w.engines.size, { w with engines := w.engines.push ⟨config, 0, 1⟩ })

/-- What limits guest code in the stores of an engine. -/
def metersOf (config : EngineConfig) : Guest.Meters :=
  ⟨config.consumeFuel, config.epochInterruption, config.stackBytes⟩

/-- Adds a store of an engine. -/
def newStore (w : World κ σ) (engine : Nat) : Nat × World κ σ :=
  let meters := ((w.engines[engine]?).map fun e => metersOf e.config).getD default
  (w.stores.size,
    { w with stores := w.stores.push ⟨engine, some (.empty meters), [], .empty, none, 1⟩
      }.retainEngine engine)

/-- Adds a module of an engine. -/
def newModule (w : World κ σ) (engine : Nat) (compiled : CompiledModule) : Nat × World κ σ :=
  (w.modules.size,
    { w with modules := w.modules.push ⟨compiled, engine, 1⟩ }.retainEngine engine)

/-- Adds a linker without definitions. -/
def newLinker (w : World κ σ) (engine : Nat) : Nat × World κ σ :=
  (w.linkers.size,
    { w with linkers := w.linkers.push ⟨engine, [], false, 1⟩ }.retainEngine engine)

/-- Adds a host object. -/
def newObject (w : World κ σ) (data : HostData) (captures : List Wrapper) : ObjectId × World κ σ :=
  (w.objects.size, { w with objects := w.objects.push ⟨data, captures, 1, 0⟩ })

/-- Adds an origin of a host object, with one copy. -/
def newOrigin (w : World κ σ) (o : ObjectId) : Nat × World κ σ :=
  (w.origins.size,
    { w with
      origins := w.origins.push ⟨o, 1⟩
      objects := w.objects.modify o fun c => { c with origins := c.origins + 1 } })

/-- Adds a log. -/
def newLog (w : World κ σ) : Nat × World κ σ :=
  (w.logs.size, { w with logs := w.logs.push .empty })

/-- Enters a closure into the registry. It shares its store. -/
def register (w : World κ σ) (store : Nat) (type : Signature) (code : κ)
    (captures : List Capture) : (Nat × Registration κ) × World κ σ :=
  let r : Registration κ := ⟨store, type, code, captures, w.chronicle.registered⟩
  let (key, registry) := w.registry.insert r
  let chronicle := { w.chronicle with registered := w.chronicle.registered + 1 }
  ((key, r), { w with registry, chronicle }.retainStore store)

/-! ## Guest parts -/

/-- Replaces the guest part of a store. -/
def setGuest (w : World κ σ) (s : Nat) (g : Guest.Store) : World κ σ :=
  w.modifyStore s fun c => { c with guest := some g }

/-- Changes the guest part of a store, if it is there. -/
def onGuest {α : Type} (w : World κ σ) (s : Nat) (f : Guest.Store → α × Guest.Store) :
    Option α × World κ σ :=
  match w.guest? s with
  | none => (none, w)
  | some g => (some (f g).1, w.setGuest s (f g).2)

/-- Makes an item in a store, and a handle for it. -/
def allot (w : World κ σ) (s : Nat)
    (f : Guest.Store → Except EngineFault (Guest.Place × Guest.Store)) :
    Option (Except EngineFault Handle) × World κ σ :=
  match (w.guest? s).map f with
  | none => (none, w)
  | some (.error fault) => (some (.error fault), w)
  | some (.ok (place, g)) =>
    let (h, w) := (w.setGuest s g).newHandle s (.item s place)
    (some (.ok h), w)

/-- Makes a handle for an export of a store. -/
def newExport (w : World κ σ) (s : Nat) (place : Guest.Place) :
    Option (Handle × Target) × World κ σ :=
  match (w.guest? s).bind (·.declaredType? place) with
  | none => (none, w)
  | some type =>
    let (h, w) := w.newHandle s (exportTarget s place type)
    (some (h, exportTarget s place type), w)

/-- Makes a host function in a store for a closure that is registered under a key, and a handle for
it. -/
def newHostFunction (w : World κ σ) (s key : Nat) (type : Signature) (r : Registration κ) :
    Option Handle × World κ σ :=
  match w.guest? s with
  | none => (none, w)
  | some g =>
    let (place, g) := g.addFunc (.host key type)
    let chronicle := { w.chronicle with functions := ⟨s, place, key, r⟩ :: w.chronicle.functions }
    let (h, w) := ({ w with chronicle }.setGuest s g).newHandle s (.item s (.func place))
    (some h, w)

end World

end WasmHost.Host
